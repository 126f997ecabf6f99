import CoinWire.Proofs.Tx.RoundTrip
import CoinWire.Proofs.Wire.Delimited
import CoinWire.Tx.Element

/-!
What the bytes of a transaction tell about it. Written with or without witnesses they determine every field,
as long as it is known which of the two was done. Otherwise there is one confusion: marker and flag read
like no input and one output. The bytes behind the name of a transaction are those of the transaction
without its witnesses, and so they determine all other fields.
-/

namespace CoinWire.Tx

open Wire
open Wire.CompactSize (Listed delimited_listed)

theorem Input.delimited_encode :
    Delimited fun (input : Input) w => input.txid.length = 32 ∧ input.encode = .ok w := by
  intro ⟨txid, vout, script, sequence⟩ ⟨txid', vout', script', sequence'⟩ u v r s ha hb he
  obtain ⟨ht, ha⟩ := ha
  obtain ⟨ht', hb⟩ := hb
  obtain ⟨wv, ws, wq, hv, hs, hq, rfl⟩ := encode_eq_ok_iff.1 ha
  obtain ⟨wv', ws', wq', hv', hs', hq', rfl⟩ := encode_eq_ok_iff.1 hb
  simp only [List.append_assoc] at he
  obtain ⟨htxid, he⟩ := List.append_inj he (ht.trans ht'.symm)
  obtain ⟨hvout, he⟩ := Number.delimited_encode 4 hv hv' he
  rw [← List.append_assoc ws, ← List.append_assoc ws'] at he
  obtain ⟨hscript, he⟩ := CompactSize.delimited_sized ⟨ws, hs, rfl⟩ ⟨ws', hs', rfl⟩ he
  obtain ⟨hsequence, hrest⟩ := Number.delimited_encode 4 hq hq' he
  subst htxid hvout hscript hsequence
  exact ⟨rfl, hrest⟩

theorem Output.delimited_encode : Delimited fun (output : Output) w => output.encode = .ok w := by
  intro ⟨amount, script⟩ ⟨amount', script'⟩ u v r s ha hb he
  obtain ⟨wa, ws, hn, hs, rfl⟩ := encode_eq_ok_iff.1 ha
  obtain ⟨wa', ws', hn', hs', rfl⟩ := encode_eq_ok_iff.1 hb
  simp only [List.append_assoc] at he
  obtain ⟨hamount, he⟩ := Number.delimited_encode 8 hn hn' he
  rw [← List.append_assoc ws, ← List.append_assoc ws'] at he
  obtain ⟨hscript, hrest⟩ := CompactSize.delimited_sized ⟨ws, hs, rfl⟩ ⟨ws', hs', rfl⟩ he
  subst hamount hscript
  exact ⟨rfl, hrest⟩

namespace Witness

theorem delimited_encodeItem : Delimited fun (item w : Bytes) => encodeItem item = .ok w := by
  simp only [encodeItem_eq_ok_iff]
  exact CompactSize.delimited_sized

theorem listed_of_encode {witness : Witness} {w : Bytes} (h : witness.encode = .ok w) :
    Listed (fun item w => encodeItem item = .ok w) witness.items w := by
  obtain ⟨count, items, hc, hi, rfl⟩ := encode_eq_ok_iff.1 h
  exact ⟨count, items, hc, mapM_eq_ok_iff.1 hi, rfl⟩

theorem delimited_encode : Delimited fun (witness : Witness) w => witness.encode = .ok w := by
  intro ⟨items⟩ ⟨items'⟩ u v r s ha hb he
  obtain ⟨rfl, he⟩ :=
    delimited_listed delimited_encodeItem (listed_of_encode ha) (listed_of_encode hb) he
  exact ⟨rfl, he⟩

/-- The number of items is there even if there are none. -/
theorem encode_ne_nil (witness : Witness) : witness.encode ≠ .ok [] := by
  intro h
  obtain ⟨count, items, hc, -, he⟩ := encode_eq_ok_iff.1 h
  obtain ⟨first, rest, rfl, -⟩ := CompactSize.encode_head hc
  cases he

end Witness

namespace Transaction

variable {a b : Transaction} {u v w : Bytes}

theorem listed_of_encodeInputs (h : a.encodeInputs = .ok w)
    (ht : ∀ input ∈ a.inputs, input.txid.length = 32) :
    Listed (fun input w => input.txid.length = 32 ∧ input.encode = .ok w) a.inputs w := by
  obtain ⟨count, inputs, hc, hi, rfl⟩ := encodeInputs_eq_ok_iff.1 h
  exact ⟨count, inputs, hc, (List.forall₂_and_left _ _).2 ⟨ht, mapM_eq_ok_iff.1 hi⟩, rfl⟩

theorem listed_of_encodeOutputs (h : a.encodeOutputs = .ok w) :
    Listed (fun output w => output.encode = .ok w) a.outputs w := by
  obtain ⟨count, outputs, hc, ho, rfl⟩ := encodeOutputs_eq_ok_iff.1 h
  exact ⟨count, outputs, hc, mapM_eq_ok_iff.1 ho, rfl⟩

/-- The witnesses have no number of their own in front. They end where the locktime starts, which is the
last four bytes. -/
theorem Body.inj (ha : a.Body w) (hb : b.Body w)
    (hta : ∀ input ∈ a.inputs, input.txid.length = 32)
    (htb : ∀ input ∈ b.inputs, input.txid.length = 32) :
    a.inputs = b.inputs ∧ a.outputs = b.outputs ∧ a.witness = b.witness ∧
      a.locktime = b.locktime := by
  obtain ⟨wi, wo, ws, wl, hi, ho, hw, hl, rfl⟩ := ha
  obtain ⟨wi', wo', ws', wl', hi', ho', hw', hl', he⟩ := hb
  have hlen : wl.length = wl'.length :=
    (Number.length_of_encode hl).trans (Number.length_of_encode hl').symm
  obtain ⟨hfront, rfl⟩ := List.append_inj' he hlen
  have hlocktime := (Number.delimited_encode 4).inj hl hl'
  rw [List.append_assoc, List.append_assoc] at hfront
  obtain ⟨hinputs, hbehind⟩ := delimited_listed Input.delimited_encode
    (listed_of_encodeInputs hi hta) (listed_of_encodeInputs hi' htb) hfront
  obtain ⟨houtputs, hitems⟩ := delimited_listed Output.delimited_encode
    (listed_of_encodeOutputs ho) (listed_of_encodeOutputs ho') hbehind
  have hwitness := Witness.delimited_encode.flatten Witness.encode_ne_nil
    (mapM_eq_ok_iff.1 hw) (mapM_eq_ok_iff.1 hw') hitems
  exact ⟨hinputs, houtputs, hwitness, hlocktime⟩

/-- Marker and flag apart, different transactions have different bytes. -/
theorem encode_inj (ha : a.encode = .ok w) (hb : b.encode = .ok w)
    (hta : ∀ input ∈ a.inputs, input.txid.length = 32)
    (htb : ∀ input ∈ b.inputs, input.txid.length = 32) (hw : a.hasWitness = b.hasWitness) :
    a = b := by
  obtain ⟨wv, body, hv, hbody, rfl⟩ := encode_eq_ok_iff.1 ha
  obtain ⟨wv', body', hv', hbody', he⟩ := encode_eq_ok_iff.1 hb
  rw [List.append_assoc, List.append_assoc, hw] at he
  obtain ⟨hversion, he⟩ := Number.delimited_encode 4 hv hv' he
  obtain rfl := List.append_cancel_left he
  obtain ⟨hinputs, houtputs, hwitness, hlocktime⟩ := hbody.inj hbody' hta htb
  obtain ⟨version, inputs, outputs, witness, locktime⟩ := a
  obtain ⟨version', inputs', outputs', witness', locktime'⟩ := b
  subst hversion hinputs houtputs hwitness hlocktime
  rfl

/-- The one confusion. The zero that counts the inputs of `a` and the one that counts its outputs are marker
and flag of `b`. -/
def Ambiguous (a b : Transaction) : Prop :=
  a.witness = [] ∧ a.inputs = [] ∧ a.outputs.length = 1 ∧ b.witness ≠ []

theorem ambiguous_of_encode (ha : a.encode = .ok w) (hb : b.encode = .ok w)
    (hwa : a.hasWitness = false) (hwb : b.hasWitness = true) : Ambiguous a b := by
  obtain ⟨wv, body, hv, hbody, rfl⟩ := encode_eq_ok_iff.1 ha
  obtain ⟨wv', body', hv', -, he⟩ := encode_eq_ok_iff.1 hb
  rw [hwa, hwb, List.append_assoc, List.append_assoc] at he
  obtain ⟨-, hmarked⟩ := Number.delimited_encode 4 hv hv' he
  obtain ⟨wi, wo, ws, wl, hi, ho, -, -, rfl⟩ := hbody
  obtain ⟨wci, wis, hci, hinputs, rfl⟩ := encodeInputs_eq_ok_iff.1 hi
  obtain ⟨wco, wos, hco, -, rfl⟩ := encodeOutputs_eq_ok_iff.1 ho
  have hzero : CompactSize.encode (0 : Nat) = .ok [0] := rfl
  have hone : CompactSize.encode (1 : Nat) = .ok [1] := rfl
  -- the marker stands where `a` has its number of inputs, the flag where it has that of its outputs
  simp only [Bool.false_eq_true, if_false, if_true, List.nil_append, List.append_assoc] at hmarked
  obtain ⟨hni, hflag⟩ := CompactSize.delimited_encode hci hzero hmarked
  have hnil : a.inputs = [] := List.length_eq_zero_iff.1 hni
  rw [hnil] at hinputs
  obtain rfl := pure_eq_ok_iff.1 hinputs
  obtain ⟨hno, -⟩ := CompactSize.delimited_encode hco hone hflag
  exact ⟨hasWitness_eq_false_iff.1 hwa, hnil, hno, hasWitness_eq_true_iff.1 hwb⟩

theorem eq_or_ambiguous_of_encode (ha : a.encode = .ok w) (hb : b.encode = .ok w)
    (hta : ∀ input ∈ a.inputs, input.txid.length = 32)
    (htb : ∀ input ∈ b.inputs, input.txid.length = 32) :
    a = b ∨ Ambiguous a b ∨ Ambiguous b a := by
  cases hwa : a.hasWitness with
  | false =>
    cases hwb : b.hasWitness with
    | false => exact .inl (encode_inj ha hb hta htb (hwa.trans hwb.symm))
    | true => exact .inr (.inl (ambiguous_of_encode ha hb hwa hwb))
  | true =>
    cases hwb : b.hasWitness with
    | false => exact .inr (.inr (ambiguous_of_encode hb ha hwb hwa))
    | true => exact .inl (encode_inj ha hb hta htb (hwa.trans hwb.symm))

theorem sameWire_of_encode (ha : a.encode = .ok u) (hb : b.encode = .ok v) :
    (Element.transaction a).sameWire (.transaction b) = .ok (u == v) := by
  simp only [Element.sameWire, bind_eq_ok_iff, pure_eq_ok_iff]
  exact ⟨u, ha, v, hb, rfl⟩

/-- Neither input nor output, but seven witnesses without items. -/
def unmatched : Transaction := { witness := List.replicate 7 ⟨[]⟩ }

/-- No input, and one output whose amount and script take the place of the counts and witnesses above. -/
def oneOutput : Transaction := { outputs := [⟨0, []⟩] }

/-- Transactions match on the wire just where all their fields are equal, but for one confusion. -/
theorem sameWire_eq_decide (ha : a.encode = .ok u) (hb : b.encode = .ok v)
    (hta : ∀ input ∈ a.inputs, input.txid.length = 32)
    (htb : ∀ input ∈ b.inputs, input.txid.length = 32) :
    (¬ (Ambiguous a b ∨ Ambiguous b a) →
      (Element.transaction a).sameWire (.transaction b) = .ok (decide (a = b))) ∧
    ∃ c d : Transaction, Ambiguous c d ∧ c ≠ d ∧
      (∀ input ∈ c.inputs ++ d.inputs, input.txid.length = 32) ∧
      (Element.transaction c).sameWire (.transaction d) = .ok true := by
  constructor
  · intro hn
    rw [sameWire_of_encode ha hb]
    congr 1
    rw [Bool.eq_iff_iff, beq_iff_eq, decide_eq_true_iff]
    constructor
    · intro huv
      subst huv
      exact (eq_or_ambiguous_of_encode ha hb hta htb).resolve_right hn
    · intro hab
      subst hab
      exact Except.ok.inj (ha.symm.trans hb)
  · refine ⟨oneOutput, unmatched, ⟨rfl, rfl, rfl, ?_⟩, ?_, ?_, rfl⟩
    · decide
    · decide
    · decide

def overfull : Transaction := { least with witness := [⟨[]⟩, ⟨[]⟩] }

theorem sameWire_eq_decide_overfull :
    ((∃ u v, overfull.encode = .ok u ∧ least.encode = .ok v) ∧
      ∀ input ∈ overfull.inputs ++ least.inputs, input.txid.length = 32) ∧
    (Element.transaction overfull).sameWire (.transaction least) = .ok false := by
  have ht : ∀ input ∈ least.inputs, input.txid.length = 32 := by
    decide
  have hn : ¬ (Ambiguous overfull least ∨ Ambiguous least overfull) := by
    simp [Ambiguous, overfull, least]
  refine ⟨⟨⟨_, _, rfl, rfl⟩, ?_⟩, ?_⟩
  · decide
  · exact (sameWire_eq_decide (a := overfull) (b := least) rfl rfl ht ht).1 hn

theorem stripped_eq_encode (tx : Transaction) :
    tx.stripped = ({ tx with witness := [] } : Transaction).encode := by
  simp [stripped, encode, encodeInputs, encodeOutputs, hasWitness]

theorem stripped_of_encode (h : a.encode = .ok w) :
    ∃ bare, a.stripped = .ok bare ∧ (w = bare ↔ a.witness = []) := by
  obtain ⟨wv, _, hv, ⟨wi, wo, ws, wl, hi, ho, -, hl, rfl⟩, rfl⟩ := encode_eq_ok_iff.1 h
  have hx : a.stripped = .ok (wv ++ wi ++ wo ++ wl) := by
    simp only [stripped, bind_eq_ok_iff, pure_eq_ok_iff]
    exact ⟨wv, hv, wi, hi, wo, ho, wl, hl, rfl⟩
  refine ⟨_, hx, ?_⟩
  constructor
  · intro he
    by_contra hne
    rw [if_pos (hasWitness_eq_true_iff.2 hne)] at he
    have hlen := congrArg List.length he
    simp only [List.length_append, List.length_cons] at hlen
    omega
  · intro hn
    rw [stripped_eq_encode, ← hn] at hx
    exact Except.ok.inj (h.symm.trans hx)

/-- What is hashed for the name of a transaction is the form it has without witnesses, and tells all the
rest of it. Only if it has a witness is something else hashed for its other name. -/
theorem stripped_inj_iff (ha : a.encode = .ok u) (hb : b.encode = .ok v)
    (hta : ∀ input ∈ a.inputs, input.txid.length = 32)
    (htb : ∀ input ∈ b.inputs, input.txid.length = 32) :
    ∃ x y, a.stripped = .ok x ∧ b.stripped = .ok y ∧
      a.txid = .ok (Hash.hash256 x) ∧ b.txid = .ok (Hash.hash256 y) ∧
      (x = y ↔ a.version = b.version ∧ a.inputs = b.inputs ∧ a.outputs = b.outputs ∧
        a.locktime = b.locktime) ∧
      ({ a with witness := [] } : Transaction).encode = .ok x ∧
      a.wtxid = .ok (Hash.hash256 u) ∧ (u = x ↔ a.witness = []) := by
  obtain ⟨x, hx, hux⟩ := stripped_of_encode ha
  obtain ⟨y, hy, -⟩ := stripped_of_encode hb
  have hex : ({ a with witness := [] } : Transaction).encode = .ok x := by
    rw [← stripped_eq_encode, hx]
  have hey : ({ b with witness := [] } : Transaction).encode = .ok y := by
    rw [← stripped_eq_encode, hy]
  refine ⟨x, y, hx, hy, ?_, ?_, ?_, hex, ?_, hux⟩
  · rw [txid, hx]
    rfl
  · rw [txid, hy]
    rfl
  · constructor
    · intro hxy
      subst hxy
      have hab := encode_inj hex hey hta htb rfl
      injection hab with hversion hinputs houtputs _ hlocktime
      exact ⟨hversion, hinputs, houtputs, hlocktime⟩
    · intro h
      obtain ⟨hversion, hinputs, houtputs, hlocktime⟩ := h
      rw [hversion, hinputs, houtputs, hlocktime] at hex
      exact Except.ok.inj (hex.symm.trans hey)
  · rw [wtxid, ha]
    rfl

theorem stripped_inj_iff_overfull :
    ∃ x, overfull.txid = .ok (Hash.hash256 x) ∧ least.txid = .ok (Hash.hash256 x) ∧
      ∃ u, overfull.wtxid = .ok (Hash.hash256 u) ∧ u ≠ x := by
  have ht : ∀ input ∈ least.inputs, input.txid.length = 32 := by
    decide
  obtain ⟨x, y, -, -, hx, hy, hxy, -, hu, hux⟩ :=
    stripped_inj_iff (a := overfull) (b := least) rfl rfl ht ht
  obtain rfl := hxy.2 ⟨rfl, rfl, rfl, rfl⟩
  refine ⟨x, hx, hy, _, hu, fun h => ?_⟩
  cases hux.1 h

end Transaction

end CoinWire.Tx
