import Ytdlpdroid.Text.Basic

namespace Ytdlpdroid.Text.Utf8

def encodeChar (c : Char) : List UInt8 :=
  let n := c.toNat
  if n < 0x80 then [UInt8.ofNat n]
  else if n < 0x800 then [UInt8.ofNat (0xC0 + n / 0x40), UInt8.ofNat (0x80 + n % 0x40)]
  else if n < 0x10000 then
    [UInt8.ofNat (0xE0 + n / 0x1000), UInt8.ofNat (0x80 + n / 0x40 % 0x40),
      UInt8.ofNat (0x80 + n % 0x40)]
  else
    [UInt8.ofNat (0xF0 + n / 0x40000), UInt8.ofNat (0x80 + n / 0x1000 % 0x40),
      UInt8.ofNat (0x80 + n / 0x40 % 0x40), UInt8.ofNat (0x80 + n % 0x40)]

def encode (text : Str) : List UInt8 := text.flatMap encodeChar

-- A sequence that is not complete: how many bytes are missing, the value of
-- the bits read, and the bounds of the next byte.
structure Pending where
  missing : Nat
  value : Nat
  lower : Nat := 0x80
  upper : Nat := 0xBF

def replacement : Char := '\uFFFD'

-- The first byte of a sequence.
def begin (b : Nat) : Str × Option Pending :=
  if b < 0x80 then ([Char.ofNat b], none)
  else if 0xC2 ≤ b ∧ b ≤ 0xDF then ([], some { missing := 1, value := b - 0xC0 })
  else if 0xE0 ≤ b ∧ b ≤ 0xEF then
    ([], some { missing := 2, value := b - 0xE0
                lower := if b = 0xE0 then 0xA0 else 0x80
                upper := if b = 0xED then 0x9F else 0xBF })
  else if 0xF0 ≤ b ∧ b ≤ 0xF4 then
    ([], some { missing := 3, value := b - 0xF0
                lower := if b = 0xF0 then 0x90 else 0x80
                upper := if b = 0xF4 then 0x8F else 0xBF })
  else ([replacement], none)

-- A byte that does not continue the pending sequence ends it with a replacement
-- character and is then read as a first byte.
def step : Option Pending → Nat → Str × Option Pending
  | none, b => begin b
  | some pending, b =>
      if pending.lower ≤ b ∧ b ≤ pending.upper then
        let value := pending.value * 0x40 + (b - 0x80)
        if pending.missing = 1 then ([Char.ofNat value], none)
        else ([], some { missing := pending.missing - 1, value := value })
      else (replacement :: (begin b).1, (begin b).2)

def decodeFrom : Option Pending → List UInt8 → Str
  | none, [] => []
  | some _, [] => [replacement]
  | state, b :: rest => (step state b.toNat).1 ++ decodeFrom (step state b.toNat).2 rest

def decode (bytes : List UInt8) : Str := decodeFrom none bytes

theorem byte_toNat {n : Nat} (hn : n < 0x100) : (UInt8.ofNat n).toNat = n := by
  simpa using Nat.mod_eq_of_lt hn

theorem decodeFrom_last (pending : Pending) (tail : Nat) (rest : List UInt8)
    (ht : tail < 0x40) (hm : pending.missing = 1)
    (hlo : pending.lower ≤ 0x80 + tail) (hhi : 0x80 + tail ≤ pending.upper) :
    decodeFrom (some pending) (UInt8.ofNat (0x80 + tail) :: rest) =
      Char.ofNat (pending.value * 0x40 + tail) :: decodeFrom none rest := by
  simp only [decodeFrom, step, byte_toNat (show 0x80 + tail < 0x100 by omega), hlo, hhi, and_self,
    ite_true, hm, Nat.add_sub_cancel_left, List.singleton_append]

theorem decodeFrom_middle (pending : Pending) (tail : Nat) (rest : List UInt8)
    (ht : tail < 0x40) (hm : pending.missing ≠ 1)
    (hlo : pending.lower ≤ 0x80 + tail) (hhi : 0x80 + tail ≤ pending.upper) :
    decodeFrom (some pending) (UInt8.ofNat (0x80 + tail) :: rest) =
      decodeFrom (some { missing := pending.missing - 1, value := pending.value * 0x40 + tail })
        rest := by
  simp only [decodeFrom, step, byte_toNat (show 0x80 + tail < 0x100 by omega), hlo, hhi, and_self,
    ite_true, hm, ite_false, Nat.add_sub_cancel_left, List.nil_append]

theorem begin_two {n : Nat} (hlo : 0x80 ≤ n) (hhi : n < 0x800) :
    begin (0xC0 + n / 0x40) = ([], some { missing := 1, value := n / 0x40 }) := by
  simp only [begin, show ¬0xC0 + n / 0x40 < 0x80 by omega, ite_false,
    show 0xC2 ≤ 0xC0 + n / 0x40 ∧ 0xC0 + n / 0x40 ≤ 0xDF by omega, and_self, ite_true,
    Nat.add_sub_cancel_left]

theorem begin_three {n : Nat} (hlo : 0x800 ≤ n) (hhi : n < 0x10000) :
    begin (0xE0 + n / 0x1000) =
      ([], some { missing := 2, value := n / 0x1000
                  lower := if 0xE0 + n / 0x1000 = 0xE0 then 0xA0 else 0x80
                  upper := if 0xE0 + n / 0x1000 = 0xED then 0x9F else 0xBF }) := by
  simp only [begin, show ¬0xE0 + n / 0x1000 < 0x80 by omega,
    show ¬(0xC2 ≤ 0xE0 + n / 0x1000 ∧ 0xE0 + n / 0x1000 ≤ 0xDF) by omega, ite_false,
    show 0xE0 ≤ 0xE0 + n / 0x1000 ∧ 0xE0 + n / 0x1000 ≤ 0xEF by omega, and_self, ite_true,
    Nat.add_sub_cancel_left]

theorem begin_four {n : Nat} (hlo : 0x10000 ≤ n) (hhi : n < 0x110000) :
    begin (0xF0 + n / 0x40000) =
      ([], some { missing := 3, value := n / 0x40000
                  lower := if 0xF0 + n / 0x40000 = 0xF0 then 0x90 else 0x80
                  upper := if 0xF0 + n / 0x40000 = 0xF4 then 0x8F else 0xBF }) := by
  simp only [begin, show ¬0xF0 + n / 0x40000 < 0x80 by omega,
    show ¬(0xC2 ≤ 0xF0 + n / 0x40000 ∧ 0xF0 + n / 0x40000 ≤ 0xDF) by omega,
    show ¬(0xE0 ≤ 0xF0 + n / 0x40000 ∧ 0xF0 + n / 0x40000 ≤ 0xEF) by omega, ite_false,
    show 0xF0 ≤ 0xF0 + n / 0x40000 ∧ 0xF0 + n / 0x40000 ≤ 0xF4 by omega, and_self, ite_true,
    Nat.add_sub_cancel_left]

theorem decodeFrom_lead {n : Nat} {pending : Pending} (hn : n < 0x100)
    (h : begin n = ([], some pending)) (rest : List UInt8) :
    decodeFrom none (UInt8.ofNat n :: rest) = decodeFrom (some pending) rest := by
  rw [decodeFrom, byte_toNat hn, step, h, List.nil_append]

-- What is pending after the first bytes of a character of three or four.
theorem decodeFrom_three_second {n : Nat} (hlo : 0x800 ≤ n) (hhi : n < 0x10000)
    (hs : n < 0xD800 ∨ 0xDFFF < n) (rest : List UInt8) :
    decodeFrom none
        (UInt8.ofNat (0xE0 + n / 0x1000) :: UInt8.ofNat (0x80 + n / 0x40 % 0x40) :: rest) =
      decodeFrom (some { missing := 1, value := n / 0x1000 * 0x40 + n / 0x40 % 0x40 }) rest := by
  rw [decodeFrom_lead (by omega) (begin_three hlo hhi)]
  apply decodeFrom_middle
  · omega
  · simp
  · simp only
    split_ifs <;> omega
  · simp only
    split_ifs <;> omega

theorem decodeFrom_four_second {n : Nat} (hlo : 0x10000 ≤ n) (hhi : n < 0x110000)
    (rest : List UInt8) :
    decodeFrom none
        (UInt8.ofNat (0xF0 + n / 0x40000) :: UInt8.ofNat (0x80 + n / 0x1000 % 0x40) :: rest) =
      decodeFrom (some { missing := 2, value := n / 0x40000 * 0x40 + n / 0x1000 % 0x40 })
        rest := by
  rw [decodeFrom_lead (by omega) (begin_four hlo hhi)]
  apply decodeFrom_middle
  · omega
  · simp
  · simp only
    split_ifs <;> omega
  · simp only
    split_ifs <;> omega

theorem decodeFrom_four_third {n : Nat} (hlo : 0x10000 ≤ n) (hhi : n < 0x110000)
    (rest : List UInt8) :
    decodeFrom none
        (UInt8.ofNat (0xF0 + n / 0x40000) :: UInt8.ofNat (0x80 + n / 0x1000 % 0x40) ::
          UInt8.ofNat (0x80 + n / 0x40 % 0x40) :: rest) =
      decodeFrom (some { missing := 1, value :=
        (n / 0x40000 * 0x40 + n / 0x1000 % 0x40) * 0x40 + n / 0x40 % 0x40 }) rest := by
  rw [decodeFrom_four_second hlo hhi]
  exact decodeFrom_middle _ _ _ (by omega) (by simp) (by simp) (by simp; omega)

theorem decodeFrom_two (n : Nat) (hlo : 0x80 ≤ n) (hhi : n < 0x800) (rest : List UInt8) :
    decodeFrom none (UInt8.ofNat (0xC0 + n / 0x40) :: UInt8.ofNat (0x80 + n % 0x40) :: rest) =
      Char.ofNat n :: decodeFrom none rest := by
  have hvalue : n / 0x40 * 0x40 + n % 0x40 = n := by omega
  rw [decodeFrom_lead (by omega) (begin_two hlo hhi),
    decodeFrom_last _ _ _ (by omega) rfl (by simp) (by simp; omega)]
  simp only [hvalue]

theorem decodeFrom_three (n : Nat) (hlo : 0x800 ≤ n) (hhi : n < 0x10000)
    (hs : n < 0xD800 ∨ 0xDFFF < n) (rest : List UInt8) :
    decodeFrom none (UInt8.ofNat (0xE0 + n / 0x1000) :: UInt8.ofNat (0x80 + n / 0x40 % 0x40) ::
        UInt8.ofNat (0x80 + n % 0x40) :: rest) = Char.ofNat n :: decodeFrom none rest := by
  have hvalue : (n / 0x1000 * 0x40 + n / 0x40 % 0x40) * 0x40 + n % 0x40 = n := by omega
  rw [decodeFrom_three_second hlo hhi hs,
    decodeFrom_last _ _ _ (by omega) rfl (by simp) (by simp; omega)]
  simp only [hvalue]

theorem decodeFrom_four (n : Nat) (hlo : 0x10000 ≤ n) (hhi : n < 0x110000) (rest : List UInt8) :
    decodeFrom none (UInt8.ofNat (0xF0 + n / 0x40000) :: UInt8.ofNat (0x80 + n / 0x1000 % 0x40) ::
        UInt8.ofNat (0x80 + n / 0x40 % 0x40) :: UInt8.ofNat (0x80 + n % 0x40) :: rest) =
      Char.ofNat n :: decodeFrom none rest := by
  have hvalue : ((n / 0x40000 * 0x40 + n / 0x1000 % 0x40) * 0x40 + n / 0x40 % 0x40) * 0x40 +
      n % 0x40 = n := by omega
  rw [decodeFrom_four_third hlo hhi,
    decodeFrom_last _ _ _ (by omega) rfl (by simp) (by simp; omega)]
  simp only [hvalue]

theorem decodeFrom_encodeChar (c : Char) (rest : List UInt8) :
    decodeFrom none (encodeChar c ++ rest) = c :: decodeFrom none rest := by
  have hv : c.toNat < 0xD800 ∨ 0xDFFF < c.toNat ∧ c.toNat < 0x110000 := c.valid
  have hc : Char.ofNat c.toNat = c := Char.ofNat_toNat c
  simp only [encodeChar]
  split_ifs with h1 h2 h3
  · simp only [List.singleton_append, decodeFrom, byte_toNat (show c.toNat < 0x100 by omega), step,
      begin, h1, ite_true, hc]
  · exact (decodeFrom_two c.toNat (by omega) h2 rest).trans (by rw [hc])
  · exact (decodeFrom_three c.toNat (by omega) h3 (by omega) rest).trans (by rw [hc])
  · exact (decodeFrom_four c.toNat (by omega) (by omega) rest).trans (by rw [hc])

theorem decodeFrom_encode (text : Str) (rest : List UInt8) :
    decodeFrom none (encode text ++ rest) = text ++ decodeFrom none rest := by
  induction text with
  | nil => rfl
  | cons c text ih =>
      change decodeFrom none (encodeChar c ++ encode text ++ rest) = _
      rw [List.append_assoc, decodeFrom_encodeChar, ih]
      rfl

-- Decoding inverts encoding.
theorem decode_encode (text : Str) : decode (encode text) = text := by
  have h := decodeFrom_encode text []
  simp only [List.append_nil, decodeFrom] at h
  exact h

-- A sequence that is cut short is read as one replacement character.
theorem decodeFrom_cut (c : Char) {count : Nat} (hpos : 0 < count)
    (hcut : count < (encodeChar c).length) :
    decodeFrom none ((encodeChar c).take count) = [replacement] := by
  have hv : c.toNat < 0xD800 ∨ 0xDFFF < c.toNat ∧ c.toNat < 0x110000 := c.valid
  simp only [encodeChar] at hcut ⊢
  split_ifs at hcut ⊢ with h1 h2 h3
  · simp only [List.length_singleton] at hcut
    omega
  · obtain rfl : count = 1 := by
      simp only [List.length_cons, List.length_nil] at hcut
      omega
    exact decodeFrom_lead (by omega) (begin_two (by omega) h2) []
  · obtain rfl | rfl : count = 1 ∨ count = 2 := by
      simp only [List.length_cons, List.length_nil] at hcut
      omega
    · exact decodeFrom_lead (by omega) (begin_three (by omega) h3) []
    · exact decodeFrom_three_second (by omega) h3 (by omega) []
  · obtain rfl | rfl | rfl : count = 1 ∨ count = 2 ∨ count = 3 := by
      simp only [List.length_cons, List.length_nil] at hcut
      omega
    · exact decodeFrom_lead (by omega) (begin_four (by omega) (by omega)) []
    · exact decodeFrom_four_second (by omega) (by omega) []
    · exact decodeFrom_four_third (by omega) (by omega) []

-- A prefix of the bytes ends inside one character, or before its first byte.
theorem take_encode {text : Str} {count : Nat} (h : count < (encode text).length) :
    ∃ before c after cut, text = before ++ c :: after ∧ count = (encode before).length + cut ∧
      cut < (encodeChar c).length ∧
      (encode text).take count = encode before ++ (encodeChar c).take cut := by
  induction text generalizing count with
  | nil => exact absurd h (Nat.not_lt_zero _)
  | cons c text ih =>
      have hcons : encode (c :: text) = encodeChar c ++ encode text := rfl
      rw [hcons, List.length_append] at h
      rw [hcons]
      by_cases hc : count < (encodeChar c).length
      · refine ⟨[], c, text, count, rfl, (Nat.zero_add _).symm, hc, ?_⟩
        rw [List.take_append_of_le_length hc.le]
        rfl
      · have hrest : count - (encodeChar c).length < (encode text).length := by omega
        obtain ⟨before, other, after, cut, rfl, hcount, hcut, htake⟩ := ih hrest
        refine ⟨c :: before, other, after, cut, rfl, ?_, hcut, ?_⟩
        · change count = (encodeChar c ++ encode before).length + cut
          rw [List.length_append]
          omega
        · change _ = encodeChar c ++ encode before ++ _
          rw [List.take_append, htake, List.take_of_length_le (by omega), List.append_assoc]

theorem length_encodeChar_replacement : (encodeChar replacement).length = 3 := by decide

theorem length_encode_of_getLast? {text : Str} (h : text.getLast? = some replacement) :
    3 ≤ (encode text).length := by
  obtain ⟨init, rfl⟩ := List.getLast?_eq_some_iff.mp h
  simp only [encode, List.flatMap_append, List.flatMap_cons, List.flatMap_nil, List.append_nil,
    List.length_append, length_encodeChar_replacement]
  omega

-- A proper prefix reads like the whole only where it cuts a replacement character at the end.
theorem decode_take_iff {text : Str} {count : Nat} (hpos : 0 < count)
    (h : count < (encode text).length) :
    decode ((encode text).take count) = text ↔
      text.getLast? = some replacement ∧ (encode text).length ≤ count + 2 := by
  obtain ⟨before, c, after, cut, rfl, rfl, hcut, htake⟩ := take_encode h
  have hread : decode ((encode (before ++ c :: after)).take ((encode before).length + cut)) =
      before ++ if cut = 0 then [] else [replacement] := by
    rw [htake, decode, decodeFrom_encode]
    split_ifs with hzero
    · rw [hzero]
      rfl
    · rw [decodeFrom_cut c (by omega) hcut]
  have hlength : (encode (before ++ c :: after)).length =
      (encode before).length + ((encodeChar c).length + (encode after).length) := by
    simp only [encode, List.flatMap_append, List.flatMap_cons, List.length_append]
  rw [hread, List.append_right_inj, hlength]
  constructor
  · intro h
    by_cases hzero : cut = 0
    · rw [if_pos hzero] at h
      cases h
    · rw [if_neg hzero] at h
      obtain ⟨rfl, rfl⟩ := List.cons.inj h
      refine ⟨List.getLast?_concat, ?_⟩
      simp only [length_encodeChar_replacement, encode, List.flatMap_nil, List.length_nil]
      omega
  · rintro ⟨hlast, hlen⟩
    cases after with
    | nil =>
        obtain rfl : c = replacement := Option.some.inj (List.getLast?_concat.symm.trans hlast)
        rw [length_encodeChar_replacement] at hlen
        rw [if_neg (by omega)]
    | cons d after =>
        rw [List.getLast?_append_cons, List.getLast?_cons_cons] at hlast
        have hafter := length_encode_of_getLast? hlast
        omega

end Ytdlpdroid.Text.Utf8
