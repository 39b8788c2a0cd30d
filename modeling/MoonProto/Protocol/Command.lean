import Mathlib.Tactic.Common

/-!
# Command ordinals

A command is its ordinal (`src/protocol/mod.rs`). On the wire the top bit of
the byte says that the payload is compressed.
-/

namespace MoonProto

/-- `COMPRESSED_FLAG`. -/
def compressedFlag : UInt8 := 0x80

structure Command where
  toByte : UInt8
deriving DecidableEq

namespace Command

/-- The command of a wire byte, with the flag stripped. -/
def fromByte (b : UInt8) : Command := ⟨b &&& 0x7F⟩

def hello : Command := ⟨2⟩
def whoAreYou : Command := ⟨3⟩
def imFriend : Command := ⟨4⟩
def fine : Command := ⟨5⟩
def helloAgain : Command := ⟨6⟩
def ping : Command := ⟨10⟩
def grouped : Command := ⟨12⟩
def logOff : Command := ⟨13⟩
def sizeTest : Command := ⟨14⟩
def sizeAck : Command := ⟨15⟩
def sliced : Command := ⟨17⟩
def slicedACK : Command := ⟨18⟩
def crypted : Command := ⟨19⟩
def wrongHello : Command := ⟨22⟩
def wantNewHello : Command := ⟨23⟩
def needHelloAgain : Command := ⟨24⟩
def probeMTU : Command := ⟨25⟩
def probeMTUAck : Command := ⟨26⟩
def logMsg : Command := ⟨27⟩
def order : Command := ⟨28⟩
def ui : Command := ⟨29⟩
def strat : Command := ⟨30⟩
def api : Command := ⟨31⟩
def balance : Command := ⟨32⟩
def sessionClose : Command := ⟨37⟩

end Command

/-! ## The compressed flag of a command byte -/

theorem byte_cases {P : UInt8 → Prop} (h : ∀ n : Fin 256, P ⟨⟨n⟩⟩) (b : UInt8) : P b :=
  h b.toBitVec.toFin

theorem and_flag_eq_zero : ∀ cmd : UInt8, cmd < 0x80 → cmd &&& compressedFlag = 0 :=
  byte_cases (by decide +kernel)

theorem or_flag_and_flag : ∀ cmd : UInt8, (cmd ||| compressedFlag) &&& compressedFlag ≠ 0 :=
  byte_cases (by decide +kernel)

theorem and_seven_f : ∀ cmd : UInt8, cmd < 0x80 → cmd &&& 0x7F = cmd :=
  byte_cases (by decide +kernel)

theorem or_flag_and_seven_f : ∀ cmd : UInt8, cmd < 0x80 → (cmd ||| compressedFlag) &&& 0x7F = cmd :=
  byte_cases (by decide +kernel)

end MoonProto
