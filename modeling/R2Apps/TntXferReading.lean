import R2Apps.TntXfer

/-! What `stream_copy` hands out is the stream, whatever the cache held before. -/
namespace R2Apps.TntXferReading
open R2Apps.TntXfer

/-- Unless a read failed, a valid block is what the file has there. -/
def Cached (content : Bytes) (d : Disk) : Prop :=
  d.readError = false → d.valid = true → d.bytes = (content.drop d.off).take cacheCap

section Blocks
variable (disk : Nat → Bool) {content : Bytes} {d : Disk}

theorem load_cached (f : Nat) : Cached content (d.load disk content f) := by
  intro clean _
  revert clean
  simp only [Disk.load, readFileAt]
  split
  · rename_i bytes read
    intro _
    split at read
    · exact (Option.some.inj read).symm
    · cases read
  · exact fun failed => absurd failed.symm Bool.false_ne_true

theorem seek_spec (cached : Cached content d) (f : Nat) :
    Cached content (d.seek disk content f) ∧ ((d.seek disk content f).readError = false →
      d.readError = false ∧ (d.seek disk content f).off ≤ f ∧ f < (d.seek disk content f).off + cacheCap ∧
      (d.seek disk content f).bytes = (content.drop (d.seek disk content f).off).take cacheCap) := by
  simp only [Disk.seek]
  split
  · refine ⟨load_cached disk f, fun clean => ?_⟩
    have within : f % cacheCap < cacheCap := Nat.mod_lt _ (by decide)
    have below : f % cacheCap ≤ f := Nat.mod_le _ _
    have valid : (d.load disk content f).valid = true := by
      simp only [Disk.load]
      split <;> rfl
    have off : (d.load disk content f).off = f - f % cacheCap := by
      simp only [Disk.load]
      split <;> rfl
    have before : d.readError = false := by
      revert clean
      simp only [Disk.load]
      split
      · exact id
      · exact fun failed => absurd failed.symm Bool.false_ne_true
    refine ⟨before, ?_, ?_, load_cached disk f clean valid⟩
    · rw [off]
      exact Nat.sub_le _ _
    · rw [off]
      omega
  · rename_i here
    simp only [not_or, Bool.not_eq_false, Nat.not_lt, Nat.not_le] at here
    refine ⟨cached, fun clean => ⟨clean, here.2.1, ?_, cached clean here.1⟩⟩
    have short : d.bytes.length ≤ cacheCap := by
      rw [cached clean here.1, List.length_take]
      exact Nat.min_le_left _ _
    omega

theorem copyBlocks_spec (fuel : Nat) (f want : Nat) (got : Bytes) (cached : Cached content d)
    (enough : want ≤ fuel) :
    Cached content (copyBlocks disk content fuel d f want got).1 ∧
      ((copyBlocks disk content fuel d f want got).1.readError = false → d.readError = false ∧
        (copyBlocks disk content fuel d f want got).2 = got ++ (content.drop f).take want) := by
  induction fuel generalizing d f want got with
  | zero =>
      obtain rfl := Nat.le_zero.mp enough
      refine ⟨cached, fun clean => ⟨clean, ?_⟩⟩
      rw [List.take_zero, List.append_nil]
      rfl
  | succ fuel ih =>
      simp only [copyBlocks]
      split
      · rename_i nothing
        refine ⟨cached, fun clean => ⟨clean, ?_⟩⟩
        rw [nothing, List.take_zero, List.append_nil]
      · rename_i some_wanted
        obtain ⟨e, sought⟩ : ∃ e, d.seek disk content f = e := ⟨_, rfl⟩
        obtain ⟨stillCached, placed⟩ := seek_spec disk cached f
        rw [sought] at stillCached placed ⊢
        split
        · rename_i beyond
          refine ⟨stillCached, fun clean => ?_⟩
          obtain ⟨before, lower, upper, bytes⟩ := placed clean
          refine ⟨before, ?_⟩
          have ended : content.length ≤ f := by
            rw [bytes, List.length_take, List.length_drop] at beyond
            omega
          rw [List.drop_eq_nil_of_le ended, List.take_nil, List.append_nil]
        · rename_i inside
          obtain ⟨k, amount⟩ : ∃ k, min (e.off + e.bytes.length - f) want = k := ⟨_, rfl⟩
          rw [amount]
          obtain ⟨lastCached, copied⟩ := ih (f + k) (want - k)
            (got ++ (e.bytes.drop (f - e.off)).take k) stillCached (by omega)
          refine ⟨lastCached, fun clean => ?_⟩
          obtain ⟨cleanHere, bytes⟩ := copied clean
          obtain ⟨before, lower, upper, block⟩ := placed cleanHere
          refine ⟨before, ?_⟩
          have short : e.bytes.length ≤ cacheCap := by
            rw [block, List.length_take]
            exact Nat.min_le_left _ _
          have piece : (e.bytes.drop (f - e.off)).take k = (content.drop f).take k := by
            have place : e.off + (f - e.off) = f := by omega
            rw [block, List.drop_take, List.drop_drop, place, List.take_take, Nat.min_eq_left]
            omega
          have whole : want = k + (want - k) := by omega
          rw [bytes, piece, List.append_assoc]
          conv_rhs => rw [whole, List.take_add, List.drop_drop]

end Blocks

theorem streamCopy_spec (disk : Nat → Bool) {job : Job} {d : Disk} (cached : Cached job.source.content d)
    (off len : Nat) : Cached job.source.content (streamCopy disk job d off len).1 ∧
      ((streamCopy disk job d off len).1.readError = false →
        (streamCopy disk job d off len).2 = (job.stream.drop off).take len) := by
  obtain ⟨front, header⟩ : ∃ front, (job.head.drop off).take len = front := ⟨_, rfl⟩
  have length : front.length = min len (job.head.length - off) := by
    rw [← header, List.length_take, List.length_drop]
  have whole : (job.stream.drop off).take len = front ++
      (job.source.content.drop (off + front.length - job.head.length)).take (len - front.length) := by
    rw [Job.stream, List.drop_append, List.take_append, header, List.length_drop]
    by_cases inside : len ≤ job.head.length - off
    · have none : len - (job.head.length - off) = 0 := by omega
      have none' : len - front.length = 0 := by omega
      rw [none, none', List.take_zero, List.take_zero]
    · have place : off + front.length - job.head.length = off - job.head.length := by omega
      have rest : len - front.length = len - (job.head.length - off) := by omega
      rw [place, rest]
  rw [whole]
  simp only [streamCopy, header]
  split
  · rename_i content memory
    rw [memory]
    exact ⟨by rwa [memory] at cached, fun _ => rfl⟩
  · rename_i content file
    rw [file] at cached ⊢
    obtain ⟨stillCached, copied⟩ := copyBlocks_spec disk (len - front.length)
      (off + front.length - job.head.length) (len - front.length) front cached (Nat.le_refl _)
    exact ⟨stillCached, fun clean => (copied clean).2⟩

end R2Apps.TntXferReading
