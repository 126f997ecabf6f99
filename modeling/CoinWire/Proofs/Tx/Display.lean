import CoinWire.Proofs.Tx.Identity
import CoinWire.Tx.Display

/-!
The display of a transaction. It needs the forms with and without witnesses, and no more can go wrong in it
than in writing these.
-/

namespace CoinWire

theorem Json.print_object (fields : List (String × Json)) :
    (Json.object fields).print.toList.head? = some '\x7b' := by
  rw [Json.print, String.toList_ofList, Json.chars]
  split
  · rfl
  · rfl

namespace Tx.Transaction

variable {tx : Transaction} {w : Bytes}

theorem WireForm.exists_encode (h : tx.WireForm w) : ∃ back, tx.encode = .ok back := by
  by_cases hi : tx.inputs = []
  · obtain ⟨-, version, body, -, -, he⟩ := h.encode_of_no_inputs hi
    exact ⟨_, he⟩
  · exact ⟨w, h.encode_eq hi⟩

theorem display_of_encode (h : tx.encode = .ok w) :
    ∃ fields, tx.display.value = .ok (.object fields) := by
  obtain ⟨bare, hb, -⟩ := stripped_of_encode h
  obtain ⟨shown, hs⟩ : ∃ shown, displayWitness Hash.hash256 tx = .ok shown := by
    rw [displayWitness]
    split
    · exact ⟨_, bind_eq_ok_iff.2 ⟨w, h, rfl⟩⟩
    · exact ⟨[], rfl⟩
  simp only [display, displayWith, hb, Logged.value_bind, Logged.value_pure, hs]
  exact ⟨_, rfl⟩

theorem print_of_display {document : Json} (h : tx.display.value = .ok document) :
    tx.print.value = .ok document.print := by
  change tx.display.value.map Json.print = .ok document.print
  rw [h]
  rfl

theorem print_of_ofHex {text : String} (h : (ofHex text).value = .ok tx) :
    ∃ fields, tx.print.value = .ok (Json.object fields).print := by
  obtain ⟨bytes, -, hr⟩ := ofHex_eq_ok_iff.1 h
  obtain ⟨w, rest, hw, -⟩ := ofBytes_eq_ok_iff.1 hr
  obtain ⟨back, he⟩ := hw.exists_encode
  obtain ⟨fields, hd⟩ := display_of_encode he
  exact ⟨fields, print_of_display hd⟩

end Tx.Transaction

end CoinWire
