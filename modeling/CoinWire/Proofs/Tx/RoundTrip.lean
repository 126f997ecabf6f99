import CoinWire.Proofs.Tx.WireForm

/-!
Writing after reading, and reading after writing. What was read is written to the same bytes, and what was
written is read back, but for transactions without inputs: they are written without marker and flag, and
the zero that is their number of inputs is then taken for the marker.
-/

namespace CoinWire.Tx.Transaction

open Wire

theorem ofBytes_eq_ok_iff {bytes : Bytes} {tx : Transaction} :
    (ofBytes bytes).value = .ok tx ↔ ∃ w rest, tx.WireForm w ∧ bytes = w ++ rest := by
  have hread : (ofBytes bytes).value = .ok tx ↔ ∃ rest, read bytes = .ok tx rest := by
    simp only [ofBytes]
    cases read bytes with
    | error e rest => simp
    | ok a rest => simp
  rw [hread]
  simp only [takes_read bytes tx]
  exact exists_comm

theorem ofBytes_eq_error_iff {bytes : Bytes} {e : Wire.Failure} :
    (ofBytes bytes).value = .error e ↔ ∃ rest, read bytes = .error e rest := by
  simp only [ofBytes]
  cases read bytes with
  | error e' rest => simp
  | ok a rest => simp

theorem value_ofHex (text : String) : (ofHex text).value =
    (Hex.decode text).mapError Wire.Failure.transactionNotHex >>= fun bytes => (ofBytes bytes).value := by
  rw [ofHex]
  cases Hex.decode text with
  | error position => rfl
  | ok bytes => rfl

theorem ofHex_eq_ok_iff {text : String} {tx : Transaction} : (ofHex text).value = .ok tx ↔
    ∃ bytes, Hex.decode text = .ok bytes ∧ (ofBytes bytes).value = .ok tx := by
  simp only [value_ofHex, bind_eq_ok_iff, mapError_eq_ok_iff]

theorem ofHex_eq_error_iff {text : String} {e : Wire.Failure} : (ofHex text).value = .error e ↔
    (∃ position, Hex.decode text = .error position ∧ e = .transactionNotHex position) ∨
      ∃ bytes rest, Hex.decode text = .ok bytes ∧ read bytes = .error e rest := by
  simp only [value_ofHex, bind_eq_error_iff, mapError_eq_error_iff, mapError_eq_ok_iff,
    ofBytes_eq_error_iff, exists_and_left]

/-- Fewer bytes are written than would have to be read. -/
theorem inputs_ne_nil_of_read_back {tx : Transaction} {bytes : Bytes} (h : tx.encode = .ok bytes)
    (hr : (ofBytes bytes).value = .ok tx) : tx.inputs ≠ [] := by
  intro hi
  obtain ⟨w, rest, hw, rfl⟩ := ofBytes_eq_ok_iff.1 hr
  obtain ⟨-, version, body, -, rfl, he⟩ := hw.encode_of_no_inputs hi
  have hl := congrArg List.length (Except.ok.inj (h.symm.trans he))
  simp only [List.length_append, List.length_cons] at hl
  omega

/-- The least that is read back: one input, no output. -/
def least : Transaction :=
  { inputs := [{ txid := List.replicate 32 0, vout := 0, script := [], sequence := 0 }] }

def leastBytes : Bytes :=
  [1, 0, 0, 0] ++ [1] ++ List.replicate 32 0 ++ [0, 0, 0, 0] ++ [0] ++ [0, 0, 0, 0] ++ [0] ++
    [0, 0, 0, 0]

/-- Neither inputs nor outputs, but marker and flag. -/
def emptyBytes : Bytes := [1, 0, 0, 0] ++ [0, 1] ++ [0] ++ [0] ++ [0, 0, 0, 0]

/-- Writing undoes reading. Without inputs marker and flag are lost. -/
theorem encode_of_read {bytes : Bytes} {tx : Transaction} {k : Nat}
    (h : (Stream.mk bytes 0).run read = (.ok tx, ⟨bytes, k⟩)) :
    (tx.inputs ≠ [] → tx.encode = .ok (bytes.take k)) ∧
      (tx.inputs = [] → (bytes.drop 4).take 2 = [0, 1] ∧ tx.witness = [] ∧
        tx.encode = .ok (bytes.take 4 ++ (bytes.take k).drop 6)) := by
  obtain ⟨hk, hw⟩ := takes_read.run_eq_ok_iff.1 h
  refine ⟨hw.encode_eq, fun hi => ?_⟩
  obtain ⟨hwitness, version, body, hv, hform, he⟩ := hw.encode_of_no_inputs hi
  obtain ⟨rest, rfl⟩ : ∃ rest, bytes = version ++ 0 :: 1 :: (body ++ rest) := by
    refine ⟨bytes.drop k, ?_⟩
    rw [← List.cons_append, ← List.cons_append, ← List.append_assoc, ← hform, List.take_append_drop]
  refine ⟨?_, hwitness, ?_⟩
  · rw [List.drop_left' hv]
    rfl
  · rw [he, hform, List.take_left' hv, show 6 = 4 + 2 from rfl, ← List.drop_drop,
      List.drop_left' hv]
    rfl

theorem encode_of_read_least :
    ((Stream.mk (leastBytes ++ [7]) 0).run read = (.ok least, ⟨leastBytes ++ [7], 51⟩) ∧
      least.encode = .ok leastBytes) ∧
    (Stream.mk emptyBytes 0).run read = (.ok {}, ⟨emptyBytes, 12⟩) ∧
      ({} : Transaction).encode = .ok [1, 0, 0, 0, 0, 0, 0, 0, 0, 0] := by
  have hl : (Stream.mk (leastBytes ++ [7]) 0).run read = (.ok least, ⟨leastBytes ++ [7], 51⟩) := by
    rfl
  have he : (Stream.mk emptyBytes 0).run read = (.ok {}, ⟨emptyBytes, 12⟩) := by
    rfl
  exact ⟨⟨hl, (encode_of_read hl).1 (by decide)⟩, he, ((encode_of_read he).2 rfl).2.2⟩

/-- Which transactions are read back, whatever stands behind them. -/
theorem read_back_iff {tx : Transaction} {bytes : Bytes} (h : tx.encode = .ok bytes)
    (hb : bytes.length < 2 ^ 63) :
    ((ofBytes bytes).value = .ok tx ↔
      tx.inputs ≠ [] ∧ (∀ input ∈ tx.inputs, input.txid.length = 32) ∧
        (tx.witness = [] ∨ tx.witness.length = tx.inputs.length)) ∧
    ((ofBytes bytes).value = .ok tx → ∀ rest, (ofBytes (bytes ++ rest)).value = .ok tx ∧
      (Stream.mk (bytes ++ rest) 0).run read = (.ok tx, ⟨bytes ++ rest, bytes.length⟩)) := by
  have hback : (ofBytes bytes).value = .ok tx ↔ tx.WireForm bytes := by
    constructor
    · intro hr
      have hi := inputs_ne_nil_of_read_back h hr
      obtain ⟨w, rest, hw, rfl⟩ := ofBytes_eq_ok_iff.1 hr
      rwa [Except.ok.inj (h.symm.trans (hw.encode_eq hi))]
    · intro hw
      exact ofBytes_eq_ok_iff.2 ⟨bytes, [], hw, (List.append_nil bytes).symm⟩
  rw [hback]
  -- what a wire form has, what makes one of it, and what may follow it
  refine ⟨⟨fun hw => ?_, fun hc => ?_⟩, fun hw rest => ⟨?_, ?_⟩⟩
  · have hi := inputs_ne_nil_of_read_back h (hback.2 hw)
    obtain ⟨hr, _, _, _, _, hform⟩ := hw
    refine ⟨hi, fun input hm => (hr.inputs input hm).1, ?_⟩
    obtain ⟨hlen, -⟩ | ⟨hwitness, -, -⟩ := hform
    · exact .inr hlen
    · exact .inl hwitness
  · obtain ⟨hi, ht, hwitness⟩ := hc
    exact wireForm_of_encode h (readable_of_encode h hb ht) hi hwitness
  · exact ofBytes_eq_ok_iff.2 ⟨bytes, rest, hw, rfl⟩
  · refine takes_read.run_eq_ok_iff.2 ⟨?_, ?_⟩
    · rw [List.length_append]
      exact Nat.le_add_right ..
    · rwa [List.take_left' rfl]

theorem read_back_iff_least :
    (least.encode = .ok leastBytes ∧ leastBytes.length < 2 ^ 63) ∧
      ∀ rest, (Stream.mk (leastBytes ++ rest) 0).run read =
        (.ok least, ⟨leastBytes ++ rest, 51⟩) := by
  have he : least.encode = .ok leastBytes := by
    rfl
  have hb : leastBytes.length < 2 ^ 63 := by
    decide
  have hback : (ofBytes leastBytes).value = .ok least := by
    refine (read_back_iff he hb).1.2 ⟨?_, ?_, .inl rfl⟩
    · decide
    · decide
  exact ⟨⟨he, hb⟩, fun rest => ((read_back_iff he hb).2 hback rest).2⟩

/-- What was read is written again, and read back just where it has an input. -/
theorem rewritten_read_back_iff {bytes : Bytes} {tx : Transaction}
    (h : (ofBytes bytes).value = .ok tx) :
    ∃ back, tx.encode = .ok back ∧ ((ofBytes back).value = .ok tx ↔ tx.inputs ≠ []) := by
  obtain ⟨w, rest, hw, rfl⟩ := ofBytes_eq_ok_iff.1 h
  by_cases hi : tx.inputs = []
  · obtain ⟨-, version, body, -, -, he⟩ := hw.encode_of_no_inputs hi
    exact ⟨version ++ body, he, inputs_ne_nil_of_read_back he, fun hne => absurd hi hne⟩
  · have he := hw.encode_eq hi
    have hback : (ofBytes w).value = .ok tx :=
      ofBytes_eq_ok_iff.2 ⟨w, [], hw, (List.append_nil w).symm⟩
    exact ⟨w, he, fun _ => hi, fun _ => hback⟩

theorem rewritten_read_back_iff_empty : (ofBytes emptyBytes).value = .ok {} ∧
    ∃ back, ({} : Transaction).encode = .ok back ∧ (ofBytes back).value ≠ .ok {} := by
  have h : (ofBytes emptyBytes).value = .ok {} := by
    rfl
  obtain ⟨back, he, hback⟩ := rewritten_read_back_iff h
  exact ⟨h, back, he, fun hr => hback.1 hr rfl⟩

/-- The zero that counts the inputs is taken for the marker, and no flag follows it. -/
theorem exists_read_not_read_back : ∃ back, (ofBytes emptyBytes).value = .ok {} ∧
    ({} : Transaction).encode = .ok back ∧ (ofBytes back).value = .error (.segwitFlag 0) :=
  ⟨[1, 0, 0, 0, 0, 0, 0, 0, 0, 0], rfl, rfl, rfl⟩

end CoinWire.Tx.Transaction
