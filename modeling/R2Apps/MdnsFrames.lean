import R2Apps.MdnsResponder

/-! What one host sends is what another reads: a wrapped message comes out of its frame as it went in,
and the records of an answer are read back in order. -/
namespace R2Apps.MdnsFrames
open WireBytes MdnsMessages MdnsResponder

/-! ## Records one after the other -/

theorem rrs_fit (rs : List Record) : ∀ g : Msg, g.full = false →
    g.buf.length + (rs.flatMap (recordBytes g)).length ≤ dnsMax → rs.foldl rr g =
      { g with buf := g.buf ++ rs.flatMap (recordBytes g), count := g.count + rs.length } := by
  induction rs with
  | nil =>
      intro g _ _
      simp
  | cons r rest ih =>
      intro g more fits
      rw [List.flatMap_cons, List.length_append, recordBytes_length] at fits
      have first : rr g r = { g with buf := g.buf ++ recordBytes g r, count := g.count + 1 } := by
        rw [rr_eq g r (by omega), if_neg]
        rintro (full | large)
        · rw [more] at full
          cases full
        · omega
      rw [List.foldl_cons, first,
        ih { g with buf := g.buf ++ recordBytes g r, count := g.count + 1 } more]
      · simp only [List.flatMap_cons, List.append_assoc, List.length_cons, Nat.add_assoc, Nat.add_comm 1]
        rfl
      · rw [List.length_append, recordBytes_length, Nat.add_assoc]
        exact fits

theorem rrs_extend (rs : List Record) : ∀ g : Msg, g.buf.length ≤ dnsMax →
    g.buf <+: (rs.foldl rr g).buf ∧ (rs.foldl rr g).buf.length ≤ dnsMax := by
  induction rs with
  | nil => exact fun g small => ⟨List.prefix_refl _, small⟩
  | cons r rest ih =>
      intro g small
      have step : g.buf <+: (rr g r).buf ∧ (rr g r).buf.length ≤ dnsMax := by
        rw [rr_eq g r small]
        by_cases full : g.full = true ∨ dnsMax < g.buf.length + recordLen r
        · rw [if_pos full]
          exact ⟨List.prefix_refl _, small⟩
        · rw [if_neg full]
          refine ⟨List.prefix_append _ _, ?_⟩
          rw [List.length_append, recordBytes_length]
          omega
      obtain ⟨more, short⟩ := ih (rr g r) step.2
      exact ⟨step.1.trans more, short⟩

/-! ## Messages -/

/-- A message is its six counts and what comes after them. -/
def message (id flags qd an ns ar : Nat) (body : Bytes) : Bytes :=
  be16 id ++ be16 flags ++ be16 qd ++ be16 an ++ be16 ns ++ be16 ar ++ body

section Message
variable (id flags qd an ns ar : Nat) (body : Bytes)

theorem message_length : (message id flags qd an ns ar body).length = 12 + body.length := by
  simp [message]
  omega

theorem message_append (more : Bytes) :
    message id flags qd an ns ar body ++ more = message id flags qd an ns ar (body ++ more) := by
  simp [message]

theorem message_questions (v : Nat) :
    wr16 (message id flags qd an ns ar body) 4 v = message id flags v an ns ar body := rfl

theorem message_answers (v : Nat) :
    wr16 (message id flags qd an ns ar body) 6 v = message id flags qd v ns ar body := rfl

theorem message_additionals (v : Nat) :
    wr16 (message id flags qd an ns ar body) 10 v = message id flags qd an ns v body := rfl

theorem message_body {bytes : Bytes} (first : bytes <+: body) :
    Stands (message id flags qd an ns ar body) 12 bytes := first

theorem message_reads (few : qd < 65536) (some_ : an < 65536) (known : flags < 65536) :
    rd16 (message id flags qd an ns ar body) 2 = flags ∧ rd16 (message id flags qd an ns ar body) 4 = qd ∧
      rd16 (message id flags qd an ns ar body) 6 = an := by
  refine ⟨rd16_stands ?_ known, rd16_stands ?_ few, rd16_stands ?_ some_⟩
  · exact ⟨be16 qd ++ be16 an ++ be16 ns ++ be16 ar ++ body, by simp [message, be16]⟩
  · exact ⟨be16 an ++ be16 ns ++ be16 ar ++ body, by simp [message, be16]⟩
  · exact ⟨be16 ns ++ be16 ar ++ body, by simp [message, be16]⟩

theorem message_rest (few : ns < 65536) (some_ : ar < 65536) :
    rd16 (message id flags qd an ns ar body) 8 = ns ∧
    rd16 (message id flags qd an ns ar body) 10 = ar := by
  refine ⟨rd16_stands ?_ few, rd16_stands ?_ some_⟩
  · exact ⟨be16 ar ++ body, by simp [message, be16]⟩
  · exact ⟨body, by simp [message, be16]⟩

end Message

theorem beginMessage_buf (id : Nat) : (beginMessage id).buf = message id 0x8400 0 0 0 0 [] := rfl

/-! ## Frames -/

theorem six_bytes {l : Bytes} (six : l.length = 6) : ∃ a b c d e f, l = [a, b, c, d, e, f] := by
  rcases l with _ | ⟨a, _ | ⟨b, _ | ⟨c, _ | ⟨d, _ | ⟨e, _ | ⟨f, _ | ⟨g, rest⟩⟩⟩⟩⟩⟩⟩
  all_goals first
    | exact ⟨_, _, _, _, _, _, rfl⟩
    | (simp only [List.length_cons, List.length_nil] at six; omega)

theorem four_bytes {l : Bytes} (four : l.length = 4) : ∃ a b c d, l = [a, b, c, d] := by
  rcases l with _ | ⟨a, _ | ⟨b, _ | ⟨c, _ | ⟨d, _ | ⟨e, rest⟩⟩⟩⟩⟩
  all_goals first
    | exact ⟨_, _, _, _, rfl⟩
    | (simp only [List.length_cons, List.length_nil] at four; omega)

theorem rd16_of {msg : Bytes} {off v : Nat} (hi : byteAt msg off = UInt8.ofNat (v / 256))
    (lo : byteAt msg (off + 1) = UInt8.ofNat v) (small : v < 65536) : rd16 msg off = v := by
  rw [rd16, hi, lo]
  simp only [UInt8.toNat_ofNat']
  omega

theorem datagram_wrap {reader m : Mdns} {g : Msg} (live : reader.ip ≠ noIp) (apart : m.ip ≠ reader.ip)
    (enough : 12 ≤ g.buf.length) (small : g.buf.length ≤ dnsMax) :
    datagram reader (wrap m g groupMac groupIp mdnsPort).2 = some ⟨m.ip, groupIp, mdnsPort, g.buf⟩ := by
  obtain ⟨m1, m2, m3, m4, m5, m6, mac⟩ := six_bytes m.macSix
  obtain ⟨i1, i2, i3, i4, ip⟩ := four_bytes m.ipFour
  simp only [dnsMax, frameMax, hdrLen] at small
  simp only [wrap]
  generalize EthernetReceive.inetCksum (ipHeader m g.buf.length groupIp 0) = cksum
  generalize frame : groupMac ++ m.mac ++ [0x08, 0x00] ++ ipHeader m g.buf.length groupIp cksum ++
    udpHeader g.buf.length mdnsPort ++ g.buf = bytes
  simp only [groupMac, mac, ipHeader, ip, groupIp, udpHeader, be16, List.cons_append, List.nil_append]
    at frame
  have length : bytes.length = 42 + g.buf.length := by
    rw [← frame]
    simp
    omega
  have total : rd16 bytes 16 = 28 + g.buf.length := by
    rw [← frame]
    exact rd16_of rfl rfl (by omega)
  have ulen : rd16 bytes 38 = 8 + g.buf.length := by
    rw [← frame]
    exact rd16_of rfl rfl (by omega)
  have sport : rd16 bytes 34 = mdnsPort := by
    rw [← frame]
    exact rd16_of rfl rfl (by decide)
  have dport : rd16 bytes 36 = mdnsPort := by
    rw [← frame]
    exact rd16_of rfl rfl (by decide)
  have whole : rd16 bytes 20 = 0 := by
    rw [← frame]
    exact rd16_of rfl rfl (by decide)
  have version : byteAt bytes 14 = 0x45 := by
    rw [← frame]
    rfl
  have ethertype : byteAt bytes 12 = 8 ∧ byteAt bytes 13 = 0 ∧ byteAt bytes 23 = 17 := by
    rw [← frame]
    exact ⟨rfl, rfl, rfl⟩
  have src : (bytes.drop 26).take 4 = m.ip := by
    rw [← frame, ip]
    rfl
  have dst : (bytes.drop 30).take 4 = groupIp := by
    rw [← frame]
    rfl
  have rest : bytes.drop 42 = g.buf := by
    rw [← frame]
    rfl
  obtain ⟨type, type', proto⟩ := ethertype
  simp only [datagram, version, show (0x45 : UInt8).toNat % 16 * 4 = 20 from rfl, Nat.reduceAdd,
    total, ulen, sport,
    dport, whole, src, dst, rest, type, type', proto, length, hdrLen]
  rw [if_neg, if_neg, if_neg, if_neg, Nat.add_sub_cancel_left, List.take_length]
  · simp
    omega
  · simp [apart]
  · simp
    omega
  · simp [live]
    omega

theorem wrap_message (m : Mdns) (g : Msg) : (wrap m g groupMac groupIp mdnsPort).2.drop hdrLen = g.buf := by
  have headers : ∀ header : Bytes, header.length = 20 →
      (groupMac ++ m.mac ++ [0x08, 0x00] ++ header ++ udpHeader g.buf.length mdnsPort).length = hdrLen := by
    intro header twenty
    simp only [List.length_append, m.macSix, twenty]
    rfl
  rw [wrap, ← headers _ _, List.drop_left]
  simp only [ipHeader, List.length_append, m.ipFour]
  rfl

theorem datagram_nil (reader : Mdns) : datagram reader [] = none := by
  have short : reader.ip = noIp ∨ ([] : Bytes).length < hdrLen + 12 ∨ byteAt [] 12 ≠ 0x08 ∨
      byteAt [] 13 ≠ 0x00 :=
    Or.inr (Or.inl (by decide))
  exact if_pos short

/-- A response is what its reader takes it for, and its records start behind the six counts. -/
theorem response_wrap {reader m : Mdns} {g : Msg} {an ar : Nat} {body : Bytes} (live : reader.ip ≠ noIp)
    (apart : m.ip ≠ reader.ip) (buf : g.buf = message 0 0x8400 0 an 0 ar body) (small : g.buf.length ≤ dnsMax)
    (few : an < 65536) : mdnsResponse reader (wrap m g groupMac groupIp mdnsPort).2 =
      some (g.buf, 12, an + rd16 g.buf 8 + rd16 g.buf 10) := by
  have enough : 12 ≤ g.buf.length := by
    rw [buf, message_length]
    omega
  obtain ⟨flags, none_, answers⟩ := message_reads 0 0x8400 0 an 0 ar body (by decide) few (by decide)
  rw [mdnsResponse, datagram_wrap live apart enough small]
  simp only [Option.bind_some, buf, flags, none_, answers, readQuestions]
  rfl

end R2Apps.MdnsFrames
