import Ytdlpdroid.Text.Utf8
import Mathlib.Logic.Function.Basic

namespace Ytdlpdroid.Text.FormEncoding

-- The encoding `application/x-www-form-urlencoded` of one value, and its decoder.

-- The characters that stand for themselves.
def isUnreserved (c : Char) : Bool :=
  ('a' ≤ c && c ≤ 'z') || ('A' ≤ c && c ≤ 'Z') || ('0' ≤ c && c ≤ '9') ||
    c == '*' || c == '-' || c == '.' || c == '_'

def hexDigit (n : Nat) : Char := Char.ofNat (if n < 10 then 0x30 + n else 0x37 + n)

def escape (byte : UInt8) : Str := ['%', hexDigit (byte.toNat / 16), hexDigit (byte.toNat % 16)]

def encodeChar (c : Char) : Str :=
  if isUnreserved c then [c]
  else if c = ' ' then ['+']
  else (Utf8.encodeChar c).flatMap escape

def encode (text : Str) : Str := text.flatMap encodeChar

def encodeField (field : Str × Str) : Str := encode field.1 ++ '=' :: encode field.2

-- The fields of a form, each a name with a value.
def encodeFields (fields : List (Str × Str)) : Str := ['&'].intercalate (fields.map encodeField)

-- The two characters after a percent sign, read by a parser of integers in radix 16:
-- it takes a sign, but the value must not be negative.
def hexPair (a b : Char) : Option UInt8 :=
  if a = '+' then (hexDigitOf b).map UInt8.ofNat
  else if a = '-' then if hexDigitOf b = some 0 then some 0 else none
  else do
    let high ← hexDigitOf a
    let low ← hexDigitOf b
    return UInt8.ofNat (16 * high + low)

-- `pending` holds the bytes of the escapes read since the last plain character.
def decodeFrom (pending : List UInt8) : Str → Option Str
  | [] => some (Utf8.decode pending)
  | c :: rest =>
      if c = '%' then
        match rest with
        | a :: b :: rest => (hexPair a b).bind fun byte => decodeFrom (pending ++ [byte]) rest
        | _ => none
      else
        (decodeFrom [] rest).map fun text =>
          Utf8.decode pending ++ (if c = '+' then ' ' else c) :: text

-- `none` stands for the decoder's exception on a broken escape.
def decode (text : Str) : Option Str := decodeFrom [] text

theorem hexDigitOf_hexDigit {n : Nat} (hn : n < 16) :
    hexDigitOf (hexDigit n) = some n ∧ hexDigit n ≠ '+' ∧ hexDigit n ≠ '-' := by
  revert n
  decide

theorem hexPair_hexDigit (byte : UInt8) :
    hexPair (hexDigit (byte.toNat / 16)) (hexDigit (byte.toNat % 16)) = some byte := by
  have hb : byte.toNat < 256 := byte.toNat_lt
  obtain ⟨hhigh, hplus, hminus⟩ := hexDigitOf_hexDigit (show byte.toNat / 16 < 16 by omega)
  obtain ⟨hlow, -, -⟩ := hexDigitOf_hexDigit (show byte.toNat % 16 < 16 by omega)
  simp only [hexPair, hplus, hminus, ite_false, hhigh, hlow, Option.bind_eq_bind, Option.bind_some,
    show 16 * (byte.toNat / 16) + byte.toNat % 16 = byte.toNat by omega, UInt8.ofNat_toNat]
  rfl

theorem decodeFrom_escape (pending : List UInt8) (byte : UInt8) (rest : Str) :
    decodeFrom pending (escape byte ++ rest) = decodeFrom (pending ++ [byte]) rest := by
  simp only [escape, List.cons_append, List.nil_append, decodeFrom, ite_true, hexPair_hexDigit,
    Option.bind_some]

theorem decodeFrom_escapes (pending bytes : List UInt8) (rest : Str) :
    decodeFrom pending (bytes.flatMap escape ++ rest) = decodeFrom (pending ++ bytes) rest := by
  induction bytes generalizing pending with
  | nil => simp
  | cons byte bytes ih =>
      rw [List.flatMap_cons, List.append_assoc, decodeFrom_escape, ih, List.append_assoc,
        List.singleton_append]

theorem unreserved_ne {c : Char} (hc : isUnreserved c) :
    c ≠ '%' ∧ c ≠ '+' ∧ c ≠ '&' ∧ c ≠ '=' ∧ c ≠ ' ' := by
  refine ⟨?_, ?_, ?_, ?_, ?_⟩ <;> rintro rfl <;> exact absurd hc (by decide)

theorem decodeFrom_plain (pending : List UInt8) {c : Char} (hc : c ≠ '%') (rest : Str) :
    decodeFrom pending (c :: rest) =
      (decodeFrom [] rest).map fun text =>
        Utf8.decode pending ++ (if c = '+' then ' ' else c) :: text := by
  rw [decodeFrom.eq_def]
  simp only [hc, ite_false]

-- The characters decoded so far come back from the bytes that wait for a plain character.
theorem decodeFrom_encode (done rest : Str) :
    decodeFrom (Utf8.encode done) (encode rest) = some (done ++ rest) := by
  induction rest generalizing done with
  | nil => simp [encode, decodeFrom, Utf8.decode_encode]
  | cons c rest ih =>
      have hrest : decodeFrom [] (encode rest) = some rest := ih []
      change decodeFrom _ (encodeChar c ++ encode rest) = _
      unfold encodeChar
      split_ifs with hc hsp
      · obtain ⟨hpercent, hplus, -⟩ := unreserved_ne hc
        simp only [List.singleton_append, decodeFrom_plain _ hpercent, hplus, ite_false, hrest,
          Option.map_some, Utf8.decode_encode]
      · subst hsp
        simp only [List.singleton_append, decodeFrom_plain _ (show '+' ≠ '%' by decide), ite_true,
          hrest, Option.map_some, Utf8.decode_encode]
      · have hbytes : Utf8.encode done ++ Utf8.encodeChar c = Utf8.encode (done ++ [c]) := by
          simp [Utf8.encode]
        rw [decodeFrom_escapes, hbytes, ih, List.append_assoc, List.singleton_append]

-- Decoding inverts encoding.
theorem decode_encode (text : Str) : decode (encode text) = some text := decodeFrom_encode [] text

theorem encode_injective : Function.Injective encode := by
  intro left right h
  have hd := congrArg decode h
  rwa [decode_encode, decode_encode, Option.some_inj] at hd

theorem mem_escape {c : Char} {byte : UInt8} (h : c ∈ escape byte) : isUnreserved c ∨ c = '%' := by
  have hdigit : ∀ n < 16, isUnreserved (hexDigit n) := by decide
  have hb : byte.toNat < 256 := byte.toNat_lt
  simp only [escape, List.mem_cons, List.not_mem_nil, or_false] at h
  rcases h with rfl | rfl | rfl
  · exact Or.inr rfl
  · exact Or.inl (hdigit _ (by omega))
  · exact Or.inl (hdigit _ (by omega))

-- Encoded text has no separator.
theorem mem_encode {c : Char} {text : Str} (h : c ∈ encode text) :
    isUnreserved c ∨ c = '+' ∨ c = '%' := by
  obtain ⟨source, -, h⟩ := List.mem_flatMap.mp h
  unfold encodeChar at h
  split_ifs at h with hc hsp
  · exact Or.inl (List.mem_singleton.mp h ▸ hc)
  · exact Or.inr (Or.inl (List.mem_singleton.mp h))
  · obtain ⟨byte, -, h⟩ := List.mem_flatMap.mp h
    exact (mem_escape h).imp id Or.inr

theorem encode_no_separator (text : Str) : '&' ∉ encode text ∧ '=' ∉ encode text :=
  ⟨fun h => absurd (mem_encode h) (by decide), fun h => absurd (mem_encode h) (by decide)⟩

theorem encodeChar_length (c : Char) :
    1 ≤ (encodeChar c).length ∧ (¬isUnreserved c → c ≠ ' ' → 1 < (encodeChar c).length) := by
  unfold encodeChar
  split_ifs with hc hsp
  · exact ⟨le_rfl, fun h => absurd hc h⟩
  · exact ⟨le_rfl, fun _ h => absurd hsp h⟩
  · have hlen : 3 ≤ ((Utf8.encodeChar c).flatMap escape).length := by
      unfold Utf8.encodeChar
      simp only
      split_ifs <;> simp [escape]
    exact ⟨by omega, fun _ _ => by omega⟩

theorem length_le_encode (text : Str) : text.length ≤ (encode text).length := by
  induction text with
  | nil => simp
  | cons c rest ih =>
      have hc := (encodeChar_length c).1
      change rest.length + 1 ≤ (encodeChar c ++ encode rest).length
      rw [List.length_append]
      omega

-- A character that is not kept and is not the space makes the encoded text longer.
theorem length_lt_encode {text : Str} {c : Char} (hm : c ∈ text) (hc : ¬isUnreserved c)
    (hsp : c ≠ ' ') : text.length < (encode text).length := by
  obtain ⟨before, after, rfl⟩ := List.append_of_mem hm
  have hone := (encodeChar_length c).2 hc hsp
  have hbefore := length_le_encode before
  have hafter := length_le_encode after
  rw [show encode (before ++ c :: after) = encode before ++ (encodeChar c ++ encode after) by
    simp [encode]]
  simp only [List.length_append, List.length_cons]
  omega

theorem encode_of_unreserved {text : Str} (h : ∀ c ∈ text, isUnreserved c) :
    encode text = text := by
  induction text with
  | nil => rfl
  | cons c rest ih =>
      have hc : encodeChar c = [c] := if_pos (h c List.mem_cons_self)
      change encodeChar c ++ encode rest = _
      rw [hc, ih fun other hm => h other (List.mem_cons_of_mem _ hm), List.singleton_append]

-- Exactly the texts of characters that stand for themselves are their own encoding.
theorem encode_eq_self_iff (text : Str) : encode text = text ↔ ∀ c ∈ text, isUnreserved c := by
  refine ⟨fun he c hm => ?_, encode_of_unreserved⟩
  by_contra hc
  have hsp : c ≠ ' ' := by
    rintro rfl
    exact absurd (mem_encode (he.symm ▸ hm)) (by decide)
  have hlen := length_lt_encode hm hc hsp
  rw [he] at hlen
  exact lt_irrefl _ hlen

end Ytdlpdroid.Text.FormEncoding
