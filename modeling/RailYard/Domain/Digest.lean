import RailYard.Library.Json
import RailYard.Domain.Time

/-! Identifiers and digests. The hash function itself is a parameter; what the
program builds from it (token hashes, keys, audit identifiers) is defined on
top, byte for byte. -/
namespace RailYard.Domain
open Library

abbrev Hash := List UInt8 → List UInt8

def utf8 (text : String) : List UInt8 := text.toUTF8.data.toList

def hexByte (byte : UInt8) : List Char :=
  [Json.hexDigit (byte.toNat / 16), Json.hexDigit (byte.toNat % 16)]

def hexEncode (bytes : List UInt8) : String := String.ofList (bytes.flatMap hexByte)

def hexDigest (sha256 : Hash) (text : String) : String := hexEncode (sha256 (utf8 text))

def tokenHash (sha256 : Hash) (token : String) : String := hexDigest sha256 token

abbrev Entropy := Vector UInt8 16

def newID (value : Entropy) : String := hexEncode value.toList

/-- `sum[:12]` in hexadecimal. -/
def shortDigest (sha256 : Hash) (text : String) : String :=
  hexEncode ((sha256 (utf8 text)).take 12)

theorem hexDigit_inj (ha : a < 16) (hb : b < 16) (h : Json.hexDigit a = Json.hexDigit b) :
    a = b := by
  have hall : ∀ a b : Fin 16, Json.hexDigit a = Json.hexDigit b → a = b := by decide
  exact Fin.val_eq_of_eq (hall ⟨a, ha⟩ ⟨b, hb⟩ h)

theorem hexByte_injective : Function.Injective hexByte := by
  intro a b h
  unfold hexByte at h
  rw [List.cons.injEq, List.cons.injEq] at h
  have ha := a.toNat_lt
  have hb := b.toNat_lt
  have hhigh := hexDigit_inj (by omega) (by omega) h.1
  have hlow := hexDigit_inj (by omega) (by omega) h.2.1
  exact UInt8.toNat_inj.mp (by omega)

theorem hexEncode_injective : Function.Injective hexEncode := by
  intro a b h
  have hflat : a.flatMap hexByte = b.flatMap hexByte := String.ofList_injective h
  clear h
  induction a generalizing b with
  | nil =>
    cases b with
    | nil => rfl
    | cons y b => cases hflat
  | cons x a ih =>
    cases b with
    | nil => cases hflat
    | cons y b =>
      rw [List.flatMap_cons, List.flatMap_cons] at hflat
      obtain ⟨hhead, htail⟩ := List.append_inj hflat rfl
      rw [hexByte_injective hhead, ih htail]

theorem utf8_injective : Function.Injective utf8 := by
  intro a b h
  have hdata : a.toUTF8.data = b.toUTF8.data := Array.toList_inj.mp h
  exact String.toByteArray_inj.mp (ByteArray.ext hdata)

theorem hexDigest_injective (h : Function.Injective sha256) :
    Function.Injective (hexDigest sha256) :=
  hexEncode_injective.comp (h.comp utf8_injective)

theorem tokenHash_injective (h : Function.Injective sha256) :
    Function.Injective (tokenHash sha256) :=
  hexDigest_injective h

end RailYard.Domain
