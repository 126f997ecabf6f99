import CoinWire.Failure
import CoinWire.Proofs.Script.Causes
import CoinWire.Proofs.Tx.RoundTrip

/-!
Messages on one line. Numbers are printed in digits, and the other parts of a message are fixed texts, apart
from the few causes that carry a text of their own. Neither the decoding of a script nor the reading of a
transaction ends in one of those with any text but a name or a label.
-/

namespace CoinWire

def OneLine (text : String) : Prop := '\n' ∉ text.toList

instance : DecidablePred OneLine := fun text => by
  unfold OneLine
  infer_instance

section OneLine

variable {text : String}

/-- In this form a fixed text is decided at once. -/
theorem oneLine_ofList {cs : List Char} (h : '\n' ∉ cs) : OneLine (String.ofList cs) := by
  rwa [OneLine, String.toList_ofList]

theorem OneLine.append (h : OneLine text) {more : String} (hm : OneLine more) :
    OneLine (text ++ more) := by
  rw [OneLine, String.toList_append]
  exact List.not_mem_append h hm

theorem OneLine.words (h : OneLine text) {cs : List Char} (hc : '\n' ∉ cs) :
    OneLine (text ++ String.ofList cs) :=
  h.append (oneLine_ofList hc)

theorem oneLine_nat (n : Nat) : OneLine (toString n) := by
  have hn : (toString n).toList = Nat.toDigits 10 n := String.toList_ofList
  rw [OneLine, hn]
  intro h
  have hd := Nat.isDigit_of_mem_toDigits (by decide) (by decide) h
  revert hd
  decide

theorem oneLine_int (n : Int) : OneLine (toString n) := by
  cases n with
  | ofNat n => exact oneLine_nat n
  | negSucc n => exact (oneLine_ofList (by decide)).append (oneLine_nat (n + 1))

theorem OneLine.int (h : OneLine text) (n : Int) : OneLine (text ++ toString n) :=
  h.append (oneLine_int n)

theorem mem_toDigits {n : Nat} {c : Char} (h : c ∈ Nat.toDigits 16 n) : ∃ k, c = Nat.digitChar k := by
  induction n using Nat.strongRecOn with
  | _ n ih =>
    by_cases hn : n < 16
    · rw [Nat.toDigits_of_lt_base hn] at h
      exact ⟨n, List.mem_singleton.1 h⟩
    · rw [Nat.toDigits_of_base_le (by decide) (Nat.not_lt.1 hn)] at h
      obtain h | h := List.mem_append.1 h
      · exact ih (n / 16) (by omega) h
      · exact ⟨n % 16, List.mem_singleton.1 h⟩

theorem oneLine_hex (n : Nat) : OneLine (Hex.ofNat n) := by
  rw [Hex.ofNat]
  refine oneLine_ofList fun h => ?_
  obtain ⟨k, hk⟩ := mem_toDigits h
  exact Nat.digitChar_ne '\n' rfl hk.symm

theorem OneLine.hex (h : OneLine text) (n : Int) : OneLine (text ++ Hex.ofInt n) := by
  refine h.append ?_
  rw [Hex.ofInt]
  split
  · exact (oneLine_ofList (by decide)).append (oneLine_hex _)
  · split
    · exact (oneLine_ofList (by decide)).append (oneLine_hex _)
    · exact oneLine_hex _

theorem OneLine.fault (h : OneLine text) (position : Nat) :
    OneLine (text ++ Hex.fault position) :=
  h.append ((oneLine_ofList (by decide)).append (oneLine_nat position))

theorem oneLine_excess [DigitLimit] : OneLine Decimal.excess := by
  have begin {cs : List Char} (hc : '\n' ∉ cs) : OneLine (String.ofList cs) := oneLine_ofList hc
  rw [Decimal.excess]
  cases DigitLimit.most? with
  | some most =>
    exact (((begin (by decide)).append (oneLine_nat most)).words (by decide)).words (by decide)
  | none => exact begin (by decide)

theorem OneLine.told [DigitLimit] (h : OneLine text) (n : Int) : OneLine (Decimal.told n text) := by
  rw [Decimal.told]
  split
  · exact h
  · exact oneLine_excess

end OneLine

namespace Script

/-- The texts that a failure carries are on one line. -/
def Failure.Plain : Failure → Prop
  | mismatch expected _ => OneLine expected
  | unsupported text _ | undecodable text => OneLine text
  | _ => True

theorem Failure.Plain.oneLine {e : Failure} (h : e.Plain) : OneLine e.message := by
  have begin {cs : List Char} (hc : '\n' ∉ cs) : OneLine (String.ofList cs) := oneLine_ofList hc
  cases e with
  | unexpectedEnd needed position available =>
    exact ((((((begin (by decide)).int needed).words (by decide)).int position).words
      (by decide)).int available).words (by decide)
  | noByteValue | noMnemonic | valuedName | unnumbered => exact begin (by decide)
  | pushExpected found | unrecognized found | multisigBody found => exact (begin (by decide)).hex found
  | unsupported text found => exact h
  | undecodable text => exact h
  | mismatch expected found =>
    exact (((begin (by decide)).append h).words (by decide)).hex found
  | keyCount declared observed =>
    exact (((begin (by decide)).int declared).words (by decide)).int observed
  | threshold required declared =>
    exact (((begin (by decide)).int required).words (by decide)).int declared
  | trailing count => exact (oneLine_int count).words (by decide)
  | scriptNotHex position | argumentNotHex position => exact (begin (by decide)).fault position
  | notByte n | pushLength n | smallInteger n | negativeRead n =>
    exact ((begin (by decide)).int n).told n
  | rewind offset position =>
    refine OneLine.told ?_ offset
    exact (((begin (by decide)).int offset).words (by decide)).append (oneLine_nat position)

theorem Kind.Allows.plain {kind : Kind} {script : Bytes} {e : Failure} (h : kind.Allows script e) :
    e.Plain := by
  have hnames : ∀ name ∈ kind.laterNames, OneLine name := by
    cases kind <;> decide
  cases e with
  | mismatch expected found => exact hnames _ h
  | unsupported | undecodable => exact h.elim
  | _ => trivial

theorem plain_of_kind {script : Bytes} {e : Failure} (h : kind script = .error e) : e.Plain := by
  obtain ⟨needed, rfl⟩ | ⟨found, rfl⟩ | ⟨found, rfl⟩ := kind_error_cases h
  · trivial
  · exact oneLine_ofList (by decide)
  · trivial

theorem plain_of_asm {settings : Settings} {script : Bytes} {e : Failure}
    (h : (asm settings script).value = .error e) : e.Plain := by
  cases hk : kind script with
  | error e' =>
    obtain rfl := Except.error.inj ((asm_of_kind_error hk).symm.trans h)
    exact plain_of_kind hk
  | ok k => exact (allows_of_asm hk h).plain

end Script

namespace Wire

/-- The label or the text that a failure carries is on one line. -/
def Failure.Plain : Failure → Prop
  | insufficient label => OneLine label
  | broken text | unreadable text | unwritable text => OneLine text
  | _ => True

theorem Failure.Plain.oneLine {e : Failure} (h : e.Plain) : OneLine e.message := by
  cases e with
  | insufficient label =>
    refine OneLine.append (oneLine_ofList (by decide)) ?_
    split
    · exact oneLine_ofList nofun
    · exact OneLine.append (oneLine_ofList (by decide)) h
  | nonCanonical value marker =>
    exact ((OneLine.append (oneLine_ofList (by decide)) (oneLine_nat value)).words
      (by decide)).append (oneLine_hex marker)
  | segwitFlag flag => exact OneLine.append (oneLine_ofList (by decide)) (oneLine_hex flag)
  | transactionNotHex position => exact OneLine.fault (oneLine_ofList (by decide)) position
  | broken | unreadable | unwritable => exact h
  | negativePosition n => exact OneLine.int (oneLine_ofList (by decide)) n
  | sizeOutOfBounds | lengthOverflow | negativeNumber | numberTooBig | positionOverflow =>
    exact oneLine_ofList (by decide)

namespace Reader

variable {α β : Type}

def FailsPlainly (reader : Reader α) : Prop :=
  ∀ unread e rest, reader unread = .error e rest → e.Plain

variable {reader : Reader α}

theorem plainly_pure (a : α) : FailsPlainly (pure a) := nofun

theorem plainly_throw {e : Failure} (he : e.Plain) : FailsPlainly (throw e : Reader α) := by
  intro unread e' rest h
  obtain ⟨rfl, -⟩ := EStateM.Result.error.inj h
  exact he

theorem FailsPlainly.bind (h : FailsPlainly reader) {next : α → Reader β}
    (hn : ∀ a, FailsPlainly (next a)) : FailsPlainly (reader >>= next) := by
  intro unread e rest hr
  obtain hr | ⟨a, between, -, hr⟩ := run_bind_eq_error_iff.1 hr
  · exact h _ _ _ hr
  · exact hn a _ _ _ hr

theorem FailsPlainly.ite {c : Prop} [Decidable c] (h : FailsPlainly reader) {other : Reader α}
    (ho : FailsPlainly other) : FailsPlainly (if c then reader else other) := by
  by_cases hc : c
  · rwa [if_pos hc]
  · rwa [if_neg hc]

theorem FailsPlainly.many (h : FailsPlainly reader) (count : Nat) :
    FailsPlainly (many count reader) := by
  induction count with
  | zero => exact plainly_pure []
  | succ count ih =>
    rw [many_succ]
    exact h.bind fun a => ih.bind fun found => plainly_pure (a :: found)

theorem plainly_bytes {label : String} (hl : OneLine label) (length : Int) :
    FailsPlainly (bytes length label) := by
  intro unread e rest h
  rw [bytes] at h
  split at h
  · obtain ⟨rfl, -⟩ := EStateM.Result.error.inj h
    trivial
  · split at h
    · obtain ⟨rfl, -⟩ := EStateM.Result.error.inj h
      exact hl
    · cases h

end Reader

open Reader (FailsPlainly plainly_pure plainly_throw plainly_bytes)

theorem Number.plainly_read {label : String} (hl : OneLine label) (width : Int) :
    FailsPlainly (read width label) :=
  (plainly_bytes hl width).bind fun bytes => plainly_pure (ofLittle bytes)

theorem CompactSize.plainly_read : FailsPlainly read := by
  refine (Number.plainly_read (oneLine_ofList (by decide)) 1).bind fun first => ?_
  cases form? first with
  | none => exact plainly_pure first
  | some form =>
    have hlabel : OneLine ("compact-size value for prefix 0x" ++ Hex.ofNat form.marker) :=
      OneLine.append (oneLine_ofList (by decide)) (oneLine_hex form.marker)
    refine (Number.plainly_read hlabel form.width).bind fun value => ?_
    exact FailsPlainly.ite (plainly_throw (e := .nonCanonical value form.marker) trivial)
      (plainly_pure value)

end Wire

namespace Tx

open Wire
open Wire.Reader (FailsPlainly plainly_pure plainly_throw plainly_bytes)

theorem Input.plainly_read : FailsPlainly read :=
  (plainly_bytes (oneLine_ofList (by decide)) 32).bind fun txid =>
    (Number.plainly_read (oneLine_ofList (by decide)) 4).bind fun vout =>
    CompactSize.plainly_read.bind fun size =>
    (plainly_bytes (oneLine_ofList (by decide)) size).bind fun script =>
    (Number.plainly_read (oneLine_ofList (by decide)) 4).bind fun sequence =>
    plainly_pure (Input.mk txid vout script sequence)

theorem Output.plainly_read : FailsPlainly read :=
  (Number.plainly_read (oneLine_ofList (by decide)) 8).bind fun amount =>
    CompactSize.plainly_read.bind fun size =>
    (plainly_bytes (oneLine_ofList (by decide)) size).bind fun script =>
    plainly_pure (Output.mk amount script)

theorem Witness.plainly_read : FailsPlainly read :=
  CompactSize.plainly_read.bind fun count =>
    (FailsPlainly.many (CompactSize.plainly_read.bind fun size =>
      plainly_bytes (oneLine_ofList (by decide)) size) count).bind fun items =>
    plainly_pure (Witness.mk items)

namespace Transaction

theorem plainly_readMarker : FailsPlainly readMarker := by
  have hget : FailsPlainly (get : Reader Bytes) := nofun
  have hset (before : Bytes) : FailsPlainly (set before : Reader PUnit) := nofun
  refine hget.bind fun before =>
    (Number.plainly_read (oneLine_ofList (by decide)) 1).bind fun first => ?_
  refine FailsPlainly.ite ?_ ((hset before).bind fun _ => plainly_pure false)
  refine (Number.plainly_read (oneLine_ofList (by decide)) 1).bind fun flag => ?_
  exact FailsPlainly.ite (plainly_pure true) (plainly_throw trivial)

theorem plainly_read : FailsPlainly read := by
  refine (Number.plainly_read (oneLine_ofList (by decide)) 4).bind fun version =>
    plainly_readMarker.bind fun segwit => CompactSize.plainly_read.bind fun inputCount =>
    (Input.plainly_read.many inputCount).bind fun inputs =>
    CompactSize.plainly_read.bind fun outputCount =>
    (Output.plainly_read.many outputCount).bind fun outputs => ?_
  cases segwit with
  | true =>
    exact (Witness.plainly_read.many inputCount).bind fun witness =>
      (Number.plainly_read (oneLine_ofList (by decide)) 4).bind fun locktime =>
      plainly_pure (Transaction.mk version inputs outputs witness locktime)
  | false =>
    exact (Number.plainly_read (oneLine_ofList (by decide)) 4).bind fun locktime =>
      plainly_pure (Transaction.mk version inputs outputs [] locktime)

theorem plain_of_ofHex {text : String} {e : Wire.Failure} (h : (ofHex text).value = .error e) :
    e.Plain := by
  obtain ⟨position, -, rfl⟩ | ⟨bytes, rest, -, hr⟩ := ofHex_eq_error_iff.1 h
  · trivial
  · exact plainly_read _ _ _ hr

end Transaction

end Tx

end CoinWire
