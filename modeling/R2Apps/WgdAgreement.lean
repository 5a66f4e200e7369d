import R2Apps.WgdSafety

/-! The daemon and the kernel read one configuration: the registration made from it is
taken, both sides allow the same addresses, and the kernel accepts every packet that a run
of the daemon injects. -/
namespace R2Apps.WgdAgreement
open PrefixRoutes KernelTunnel WgdSettings WireGuardPeer WgdEngine WgdSafety

/-- The frame of `wgd_platform_inject`; `mac` is the address of the network card. -/
def wgdPlatformInject (mac : Vector UInt8 6) (ip : KernelTunnel.Bytes) : Option KernelTunnel.Bytes :=
  if ip.length > 1420 then none else some (mac.toList ++ List.replicate 6 0 ++ [8, 0] ++ ip)

theorem injected_acceptable {cfg : WgdConfig} {packet plain : KernelTunnel.Bytes} {s : State}
    (routed : Routed cfg) (taken : s.owner ≠ none_) (same : s.config = wgdPlatformAttach cfg)
    (injected : Injected cfg packet plain) : Acceptable s packet := by
  have whole := injected.whole
  constructor
  · exact whole.version
  · exact whole.header
  · exact whole.fits
  · exact whole.total
  · exact whole.unfragmented
  · rw [same]
    exact injected.short
  · exact (allowed_iff routed taken same _).mpr injected.source
  · rw [same]
    exact injected.foreign
  · rw [same]
    exact injected.target
  · exact injected.protocol

theorem tunnel_agreement {text : KernelTunnel.Bytes} {cfg : WgdConfig} (read : wgdConfigParse text = .ok cfg)
    {s : State} {pid : Nat} (taken : pid ≠ none_) (free : s.owner = none_ ∨ s.owner = pid) :
    ∃ s', s.attach pid (wgdPlatformAttach cfg) = some s' ∧
      (∀ ip, (wgdAllowed cfg ip = true ↔ Covered cfg ip) ∧ (s'.allowed ip = true ↔ Covered cfg ip)) ∧
      ∀ (c : Crypto) secret now wg calls packet plain ok mac, wgdInit c cfg secret now = some wg →
        .inject packet plain ok ∈ (run c wg calls).log →
        ∃ frame, wgdPlatformInject mac packet = some frame ∧ s'.accepts pid frame = true := by
  have accepted := wgdConfigParse_accepted read
  have routed := accepted.routed
  refine ⟨_, registration_attached accepted taken free, ?_, ?_⟩
  · intro ip
    constructor
    · exact wgdAllowed_iff routed ip
    · exact (allowed_iff routed taken rfl ip).trans (wgdAllowed_iff routed ip)
  · intro c secret now wg calls packet plain ok mac started logged
    obtain ⟨_, inv⟩ := run_inv (init_inv started) calls
    obtain ⟨before, after, split⟩ := List.append_of_mem logged
    have ⟨injected, _⟩ : Injected (routing cfg) packet plain ∧ _ := inv.lawful _ _ _ split
    have routed' : Routed (routing cfg) := routed
    have good : Acceptable { owner := pid, config := wgdPlatformAttach cfg } packet :=
      injected_acceptable routed' taken rfl injected
    refine ⟨_, if_neg (Nat.not_lt.mpr injected.short), ?_⟩
    exact accepts_framed (by simp) rfl taken good

section Example

def exampleText : KernelTunnel.Bytes :=
  ascii "[Interface]\nPrivateKey = dwdtCnMYpX08FsFyUbJmRd9ML5LrwJkqwXf7pR25LCo=\nAddress = 10.77.0.1/32\n\n" ++
  ascii "[Peer]\nPublicKey = 3p7bfXt9wbTTW2HC7OQ1Nz+DQ8hbeGdNrfx+FG+IK08= # of the other end\n" ++
  ascii "AllowedIPs = 10.77.0.2/32, 10.4.6.68/24\n"

theorem loop_eq (bytes : ByteArray) (i : Nat) (r : List UInt8) :
    ByteArray.toList.loop bytes i r = r.reverse ++ bytes.data.toList.drop i := by
  fun_induction ByteArray.toList.loop bytes i r with
  | case1 i r inside ih =>
      have inside : i < bytes.data.size := inside
      have here : bytes.get! i = bytes.data[i] := getElem!_pos bytes.data i inside
      rw [ih, here, List.reverse_cons, List.append_assoc, List.singleton_append, ← Array.getElem_toList,
        ← List.drop_eq_getElem_cons]
  | case2 i r beyond =>
      have beyond : bytes.data.size ≤ i := Nat.le_of_not_lt beyond
      rw [List.drop_eq_nil_of_le (by simpa using beyond), List.append_nil]

theorem ascii_ofList (cs : List Char) : ascii (String.ofList cs) = cs.flatMap String.utf8EncodeChar := by
  rw [ascii, ByteArray.toList, loop_eq]
  simp [List.utf8Encode]

/-- The second prefix of this text covers an address, for the daemon and for the kernel, and
the kernel takes the segment that a run of the daemon injects. -/
theorem tunnel_agreement_text : wgdConfigParse exampleText = .ok exampleConfig ∧
    ∃ s', ({} : State).attach 4 (wgdPlatformAttach exampleConfig) = some s' ∧
      Covered exampleConfig #v[10, 4, 6, 9] ∧ s'.allowed #v[10, 4, 6, 9] = true ∧
      .inject exampleSegment (exampleSegment ++ be 8 0) true ∈ exampleRun.log ∧
      ∃ frame, wgdPlatformInject #v[2, 0, 0, 0, 0, 1] exampleSegment = some frame ∧
        s'.accepts 4 frame = true := by
  have read : wgdConfigParse exampleText = .ok exampleConfig := by
    unfold exampleText
    rw [ascii_ofList, ascii_ofList, ascii_ofList]
    decide +kernel
  obtain ⟨s', attached, same, accepted⟩ :=
    tunnel_agreement read (show (4 : Nat) ≠ none_ by decide) (s := {}) (.inl rfl)
  have covered : Covered exampleConfig #v[10, 4, 6, 9] := (same _).1.mp (by decide)
  obtain ⟨before, last⟩ := example_injects
  have injected : .inject exampleSegment (exampleSegment ++ be 8 0) true ∈ exampleRun.log := by
    rw [last]
    exact List.mem_append_right _ (List.mem_singleton.mpr rfl)
  exact ⟨read, s', attached, covered, (same _).2.mpr covered, injected,
    accepted _ _ _ _ _ _ _ _ _ example_started injected⟩

end Example

end R2Apps.WgdAgreement
