import RailYard.Library.JsonReader

/-! Text in byte streams: UTF-8 as a lenient decoder reads it, lines, and the
white space around a line. -/
namespace RailYard.Library.ByteText

def encode (text : List Char) : List UInt8 := text.flatMap String.utf8EncodeChar

/-- The text of a byte string. A byte that begins no character stands for the
replacement character. -/
def decodeChars : Nat → List UInt8 → List Char
  | 0, _ => []
  | _, [] => []
  | fuel + 1, byte :: rest =>
    match (byte :: rest).toByteArray.utf8DecodeChar? 0 with
    | some character => character :: decodeChars fuel ((byte :: rest).drop character.utf8Size)
    | none => JsonReader.replacement :: decodeChars fuel rest

def decode (bytes : List UInt8) : List Char := decodeChars bytes.length bytes

def lines : List UInt8 → List (List UInt8)
  | [] => []
  | byte :: rest =>
    if byte = 10 then [] :: lines rest
    else
      match lines rest with
      | [] => [[byte]]
      | line :: others => (byte :: line) :: others

/-- The characters with the property `White_Space`. -/
def whiteSpace : List Char :=
  [0x09, 0x0a, 0x0b, 0x0c, 0x0d, 0x20, 0x85, 0xa0, 0x1680, 0x2000, 0x2001, 0x2002, 0x2003, 0x2004,
    0x2005, 0x2006, 0x2007, 0x2008, 0x2009, 0x200a, 0x2028, 0x2029, 0x202f, 0x205f,
    0x3000].map Char.ofNat

def spaces : List (List UInt8) := whiteSpace.map String.utf8EncodeChar

def trimStart : Nat → List UInt8 → List UInt8
  | 0, line => line
  | fuel + 1, line =>
    match spaces.find? fun space => space.isPrefixOf line with
    | some space => trimStart fuel (line.drop space.length)
    | none => line

def trimEnd : Nat → List UInt8 → List UInt8
  | 0, line => line
  | fuel + 1, line =>
    match spaces.find? fun space => space.isSuffixOf line with
    | some space => trimEnd fuel (line.take (line.length - space.length))
    | none => line

def trimSpace (line : List UInt8) : List UInt8 :=
  trimEnd line.length (trimStart line.length line)

example : trimSpace [32, 0xc2, 0xa0, 65, 32, 66, 13] = [65, 32, 66] ∧
    lines [65, 10, 10, 66] = [[65], [], [66]] := by decide

theorem utf8EncodeChar_ne_nil (character : Char) : String.utf8EncodeChar character ≠ [] := by
  intro h
  have hlength := String.length_utf8EncodeChar character
  rw [h] at hlength
  exact Nat.ne_of_gt character.utf8Size_pos hlength.symm

theorem decodeChars_encode (text : List Char) (h : text.length ≤ fuel) :
    decodeChars fuel (encode text) = text := by
  induction text generalizing fuel with
  | nil => cases fuel <;> rfl
  | cons character text ih =>
    obtain ⟨fuel, rfl⟩ := Nat.exists_eq_succ_of_ne_zero (Nat.ne_of_gt (Nat.zero_lt_of_lt h))
    have hencode : encode (character :: text) = String.utf8EncodeChar character ++ encode text :=
      List.flatMap_cons
    have hread : (encode (character :: text)).toByteArray.utf8DecodeChar? 0 = some character := by
      rw [hencode, List.toByteArray_append]
      exact ByteArray.utf8DecodeChar?_utf8EncodeChar_append
    have hdrop : (encode (character :: text)).drop character.utf8Size = encode text := by
      rw [hencode, ← String.length_utf8EncodeChar]
      exact List.drop_left
    cases hbytes : encode (character :: text) with
    | nil =>
      rw [hencode] at hbytes
      exact (utf8EncodeChar_ne_nil character (List.append_eq_nil_iff.mp hbytes).1).elim
    | cons byte rest =>
      rw [hbytes] at hread hdrop
      rw [decodeChars, hread]
      dsimp only
      rw [hdrop, ih (Nat.le_of_succ_le_succ h)]

theorem length_le_encode (text : List Char) : text.length ≤ (encode text).length := by
  induction text with
  | nil => exact Nat.le_refl 0
  | cons character text ih =>
    have hpos := character.utf8Size_pos
    unfold encode at ih ⊢
    rw [List.flatMap_cons, List.length_append, String.length_utf8EncodeChar, List.length_cons]
    omega

theorem decode_encode (text : List Char) : decode (encode text) = text :=
  decodeChars_encode text (length_le_encode text)

theorem toUTF8_eq (text : String) : text.toUTF8.data.toList = encode text.toList := by
  have hbytes : text.toUTF8 = (encode text.toList).toByteArray := String.utf8Encode_toList.symm
  rw [hbytes, List.data_toByteArray]

theorem lineFeed_of_mem_encodeChar (h : (10 : UInt8) ∈ String.utf8EncodeChar character) :
    character.toNat = 10 := by
  have hbyte : ∀ code, (10 : UInt8) = UInt8.ofNat code → code % 256 = 10 := by
    intro code heq
    rw [← UInt8.toNat_ofNat', ← heq]
    rfl
  change character.val.toNat = 10
  unfold String.utf8EncodeChar at h
  dsimp only at h
  split_ifs at h <;> simp only [List.mem_cons, List.not_mem_nil, or_false] at h
  · have hcode := hbyte _ h
    omega
  · rcases h with h | h <;> have hcode := hbyte _ h <;> omega
  · rcases h with h | h | h <;> have hcode := hbyte _ h <;> omega
  · rcases h with h | h | h | h <;> have hcode := hbyte _ h <;> omega

theorem lineFeed_notMem_encode {text : List Char} (h : ∀ character ∈ text, 32 ≤ character.toNat) :
    (10 : UInt8) ∉ encode text := by
  intro hmem
  obtain ⟨character, hcharacter, hbyte⟩ := List.mem_flatMap.mp hmem
  have hcode := lineFeed_of_mem_encodeChar hbyte
  have hvisible := h character hcharacter
  omega

theorem lines_append {line : List UInt8} (h : (10 : UInt8) ∉ line) (rest : List UInt8) :
    lines (line ++ 10 :: rest) = line :: lines rest := by
  induction line with
  | nil => rfl
  | cons byte line ih =>
    rw [List.mem_cons, not_or] at h
    rw [List.cons_append, lines, if_neg (Ne.symm h.1), ih h.2]

theorem lines_flatMap (h : ∀ text ∈ texts, (10 : UInt8) ∉ text) :
    lines (texts.flatMap fun text => text ++ [10]) = texts := by
  induction texts with
  | nil => rfl
  | cons text texts ih =>
    rw [List.forall_mem_cons] at h
    rw [List.flatMap_cons, List.append_assoc, List.singleton_append, lines_append h.1, ih h.2]

theorem trimStart_of_head (fuel : Nat) (rest : List UInt8)
    (h : ∀ space ∈ spaces, space.head? ≠ some first ∧ space ≠ []) :
    trimStart fuel (first :: rest) = first :: rest := by
  cases fuel with
  | zero => rfl
  | succ fuel =>
    have hnone : spaces.find? (fun space => space.isPrefixOf (first :: rest)) = none := by
      refine List.find?_eq_none.mpr fun space hspace hstart => ?_
      obtain ⟨hhead, hsome⟩ := h space hspace
      cases space with
      | nil => exact hsome rfl
      | cons byte space =>
        rw [List.isPrefixOf_iff_prefix, List.cons_prefix_cons] at hstart
        exact hhead (by rw [hstart.1]; rfl)
    rw [trimStart, hnone]

theorem trimEnd_of_last (fuel : Nat) (rest : List UInt8)
    (h : ∀ space ∈ spaces, space.getLast? ≠ some last ∧ space ≠ []) :
    trimEnd fuel (rest ++ [last]) = rest ++ [last] := by
  cases fuel with
  | zero => rfl
  | succ fuel =>
    have hnone : spaces.find? (fun space => space.isSuffixOf (rest ++ [last])) = none := by
      refine List.find?_eq_none.mpr fun space hspace hstop => ?_
      obtain ⟨hlast, hsome⟩ := h space hspace
      rcases List.eq_nil_or_concat space with rfl | ⟨front, byte, rfl⟩
      · exact hsome rfl
      · rw [List.isSuffixOf_iff_suffix, List.concat_eq_append] at hstop
        obtain ⟨before, hbefore⟩ := hstop
        rw [← List.append_assoc] at hbefore
        have hbyte := (List.append_inj' hbefore rfl).2
        rw [List.concat_eq_append, List.getLast?_concat, List.cons.inj hbyte |>.1] at hlast
        exact hlast rfl
    rw [trimEnd, hnone]

theorem trimSpace_braces (content : List UInt8) :
    trimSpace (0x7b :: (content ++ [0x7d])) = 0x7b :: (content ++ [0x7d]) := by
  unfold trimSpace
  rw [trimStart_of_head _ _ (by decide)]
  exact trimEnd_of_last _ (0x7b :: content) (by decide)

end RailYard.Library.ByteText
