import CoinWire.Script.Opcode

/-!
Assembly text in the making: one token an opcode and one a piece of data, in script order.

`text` joins the tokens with single spaces and strips the spaces at both ends, which only tokens of
empty data can have left there. Stripping all white space would come to the same: a token is a mnemonic or
hexadecimal, and holds none.
-/

namespace CoinWire.Script

structure Asm where
  tokens : List String := []
  deriving DecidableEq, Repr

namespace Asm

def empty : Asm := ⟨[]⟩

def opcode [DigitLimit] (asm : Asm) (op : Opcode) : Except Failure Asm :=
  op.mnemonic.map fun text => ⟨asm.tokens ++ [text]⟩

def bytes (asm : Asm) (data : Bytes) : Asm :=
  ⟨asm.tokens ++ [Hex.encode data]⟩

def size (asm : Asm) : Nat := asm.tokens.length

def strip (text : List Char) : List Char :=
  ((text.dropWhile (· = ' ')).reverse.dropWhile (· = ' ')).reverse

def text (asm : Asm) : String :=
  String.ofList (strip (" ".intercalate asm.tokens).toList)

end Asm

end CoinWire.Script
