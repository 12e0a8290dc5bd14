import Ytdlpdroid.Text.Basic

namespace Ytdlpdroid.Text.StringLiteral

-- The double-quoted string literals of ECMAScript, outside strict mode. The reader starts
-- after the opening quote. The value of a literal is a list of UTF-16 code units.

inductive LexState
  | plain
  | escape
  -- an octal escape, and how many more digits it can have
  | octal (value left : Nat)
  -- a hexadecimal escape, and how many more digits it must have
  | hex (value left : Nat)
  | unicode
  | codePoint (value : Option Nat)
  -- a line continuation, after its carriage return
  | carriageReturn

inductive Lexed
  | more (emitted : List UInt16) (state : LexState)
  | finished (emitted : List UInt16)
  | invalid

-- A character outside an escape. Line and paragraph separators stand for themselves.
def plainStep (emitted : List UInt16) (c : Char) : Lexed :=
  if c = '"' then .finished emitted
  else if c = '\\' then .more emitted .escape
  else if c = '\n' ∨ c = '\r' then .invalid
  else .more (emitted ++ units c) .plain

def singleEscapes : List (Char × UInt16) :=
  [('b', 8), ('t', 9), ('n', 10), ('v', 11), ('f', 12), ('r', 13)]

-- The character after a backslash. One that starts no escape stands for itself.
def escapeStep (c : Char) : Lexed :=
  match singleEscapes.lookup c with
  | some unit => .more [unit] .plain
  | none =>
      if c = 'x' then .more [] (.hex 0 2)
      else if c = 'u' then .more [] .unicode
      else if '0' ≤ c ∧ c ≤ '3' then .more [] (.octal (c.toNat - 0x30) 2)
      else if '4' ≤ c ∧ c ≤ '7' then .more [] (.octal (c.toNat - 0x30) 1)
      else if c = '\r' then .more [] .carriageReturn
      else if c = '\n' ∨ c = '\u2028' ∨ c = '\u2029' then .more [] .plain
      else .more (units c) .plain

def octalStep (value left : Nat) (c : Char) : Lexed :=
  if '0' ≤ c ∧ c ≤ '7' then
    let value := 8 * value + (c.toNat - 0x30)
    if left = 1 then .more [UInt16.ofNat value] .plain else .more [] (.octal value (left - 1))
  else plainStep [UInt16.ofNat value] c

def hexStep (value left : Nat) (c : Char) : Lexed :=
  match asciiHexDigit c with
  | none => .invalid
  | some digit =>
      let value := 16 * value + digit
      if left = 1 then .more [UInt16.ofNat value] .plain else .more [] (.hex value (left - 1))

def codePointStep (value : Option Nat) (c : Char) : Lexed :=
  match asciiHexDigit c with
  | some digit =>
      let value := 16 * value.getD 0 + digit
      if value ≤ 0x10FFFF then .more [] (.codePoint (some value)) else .invalid
  | none =>
      match value with
      | some value => if c = '\x7d' then .more (codePointUnits value) .plain else .invalid
      | none => .invalid

def step : LexState → Char → Lexed
  | .plain, c => plainStep [] c
  | .escape, c => escapeStep c
  | .octal value left, c => octalStep value left c
  | .hex value left, c => hexStep value left c
  | .unicode, c => if c = '\x7b' then .more [] (.codePoint none) else hexStep 0 4 c
  | .codePoint value, c => codePointStep value c
  | .carriageReturn, c => if c = '\n' then .more [] .plain else plainStep [] c

-- The value of the literal and the text after its closing quote.
def read : LexState → Str → Option (List UInt16 × Str)
  | _, [] => none
  | state, c :: rest =>
      match step state c with
      | .more emitted next => (read next rest).map fun found => (emitted ++ found.1, found.2)
      | .finished emitted => some (emitted, rest)
      | .invalid => none

-- The characters that stand for themselves in a literal.
def isPlain (c : Char) : Bool := c ≠ '"' && c ≠ '\\' && c ≠ '\n' && c ≠ '\r'

-- Of the units read since an escape began, those that the escape can still give. A
-- backslash itself gives none.
def pending : LexState → Nat
  | .plain | .escape | .carriageReturn => 0
  | .octal _ _ | .hex _ _ | .unicode => 1
  | .codePoint _ => 2

theorem plainStep_more {emitted out : List UInt16} {c : Char} {next : LexState}
    (h : plainStep emitted c = .more out next) :
    out.length + pending next ≤ emitted.length + (units c).length := by
  have hpos := units_length_pos c
  unfold plainStep at h
  split_ifs at h
  · obtain ⟨rfl, rfl⟩ := Lexed.more.inj h
    simp [pending]
  · obtain ⟨rfl, rfl⟩ := Lexed.more.inj h
    simp [pending]

theorem escapeStep_more {out : List UInt16} {c : Char} {next : LexState}
    (h : escapeStep c = .more out next) : out.length + pending next ≤ (units c).length := by
  have hpos := units_length_pos c
  unfold escapeStep at h
  split at h
  · obtain ⟨rfl, rfl⟩ := Lexed.more.inj h
    simp only [pending, List.length_singleton]
    omega
  · split_ifs at h
    all_goals
      obtain ⟨rfl, rfl⟩ := Lexed.more.inj h
      simp only [pending, List.length_nil]
      omega

theorem hexStep_more {value left : Nat} {out : List UInt16} {c : Char} {next : LexState}
    (h : hexStep value left c = .more out next) : out.length + pending next ≤ 1 := by
  unfold hexStep at h
  split at h
  · simp at h
  · simp only at h
    split_ifs at h
    all_goals
      obtain ⟨rfl, rfl⟩ := Lexed.more.inj h
      simp [pending]

theorem codePointStep_more {value : Option Nat} {out : List UInt16} {c : Char} {next : LexState}
    (h : codePointStep value c = .more out next) : out.length + pending next ≤ 2 := by
  unfold codePointStep at h
  split at h
  · simp only at h
    split_ifs at h
    obtain ⟨rfl, rfl⟩ := Lexed.more.inj h
    simp [pending]
  · split at h
    · split_ifs at h
      obtain ⟨rfl, rfl⟩ := Lexed.more.inj h
      simpa [pending] using (codePointUnits_length _).2
    · simp at h

-- One character gives at most the units it has and those that were pending.
theorem step_more {state next : LexState} {out : List UInt16} {c : Char}
    (h : step state c = .more out next) :
    out.length + pending next ≤ pending state + (units c).length := by
  have hpos := units_length_pos c
  cases state with
  | plain => simpa [pending] using plainStep_more h
  | escape => simpa [pending] using escapeStep_more h
  | octal value left =>
      simp only [step, octalStep] at h
      split_ifs at h
      · obtain ⟨rfl, rfl⟩ := Lexed.more.inj h
        simp [pending]
      · obtain ⟨rfl, rfl⟩ := Lexed.more.inj h
        simp [pending]
      · simpa [pending] using plainStep_more h
  | hex value left =>
      have := hexStep_more h
      simp only [pending] at this ⊢
      omega
  | unicode =>
      simp only [step] at h
      split_ifs at h
      · obtain ⟨rfl, rfl⟩ := Lexed.more.inj h
        simp only [pending, List.length_nil]
        omega
      · have := hexStep_more h
        simp only [pending] at this ⊢
        omega
  | codePoint value =>
      have := codePointStep_more h
      simp only [pending] at this ⊢
      omega
  | carriageReturn =>
      simp only [step] at h
      split_ifs at h
      · obtain ⟨rfl, rfl⟩ := Lexed.more.inj h
        simp [pending]
      · simpa [pending] using plainStep_more h

theorem plainStep_finished {emitted out : List UInt16} {c : Char}
    (h : plainStep emitted c = .finished out) : c = '"' ∧ out = emitted := by
  unfold plainStep at h
  split_ifs at h with hc
  exact ⟨hc, (Lexed.finished.inj h).symm⟩

theorem hexStep_not_finished (value left : Nat) (c : Char) (out : List UInt16) :
    hexStep value left c ≠ .finished out := by
  unfold hexStep
  split
  · simp
  · simp only
    split_ifs <;> simp

theorem codePointStep_not_finished (value : Option Nat) (c : Char) (out : List UInt16) :
    codePointStep value c ≠ .finished out := by
  unfold codePointStep
  split
  · simp only
    split_ifs <;> simp
  · split
    · split_ifs <;> simp
    · simp

-- Only a quote ends a literal, and only one that no escape takes.
theorem step_finished {state : LexState} {out : List UInt16} {c : Char}
    (h : step state c = .finished out) : c = '"' ∧ out.length ≤ pending state := by
  cases state with
  | plain =>
      obtain ⟨hc, rfl⟩ := plainStep_finished h
      exact ⟨hc, le_rfl⟩
  | escape =>
      simp only [step, escapeStep] at h
      split at h
      · simp at h
      · split_ifs at h
  | octal value left =>
      simp only [step, octalStep] at h
      split_ifs at h
      obtain ⟨hc, rfl⟩ := plainStep_finished h
      exact ⟨hc, le_rfl⟩
  | hex value left => exact absurd h (hexStep_not_finished _ _ _ _)
  | unicode =>
      simp only [step] at h
      split_ifs at h
      exact absurd h (hexStep_not_finished _ _ _ _)
  | codePoint value => exact absurd h (codePointStep_not_finished _ _ _)
  | carriageReturn =>
      simp only [step] at h
      split_ifs at h
      obtain ⟨hc, rfl⟩ := plainStep_finished h
      exact ⟨hc, le_rfl⟩

-- Without a quote the literal never ends.
theorem read_no_quote (state : LexState) {text : Str} (h : '"' ∉ text) :
    read state text = none := by
  induction text generalizing state with
  | nil => rfl
  | cons c rest ih =>
      simp only [read]
      split
      · rw [ih _ fun hm => h (List.mem_cons_of_mem _ hm), Option.map_none]
      · rename_i emitted hs
        exact absurd ((step_finished hs).1 ▸ List.mem_cons_self) h
      · rfl

theorem read_cons_inv {state : LexState} {c : Char} {rest after : Str} {value : List UInt16}
    (h : read state (c :: rest) = some (value, after)) :
    (step state c = .finished value ∧ after = rest) ∨
      ∃ emitted next found, step state c = .more emitted next ∧
        read next rest = some (found, after) ∧ value = emitted ++ found := by
  simp only [read] at h
  split at h
  · rename_i emitted next hs
    obtain ⟨⟨found, left⟩, hr, he⟩ := Option.map_eq_some_iff.mp h
    obtain ⟨rfl, rfl⟩ := Prod.mk.inj he
    exact Or.inr ⟨emitted, next, found, hs, hr, rfl⟩
  · rename_i emitted hs
    obtain ⟨rfl, rfl⟩ := Prod.mk.inj (Option.some.inj h)
    exact Or.inl ⟨hs, rfl⟩
  · simp at h

-- The value is at most as long as the text before the last quote.
theorem read_length {state : LexState} {text tail after : Str} {value : List UInt16}
    (ht : '"' ∉ tail) (h : read state (text ++ '"' :: tail) = some (value, after)) :
    value.length ≤ pending state + (utf16 text).length := by
  induction text generalizing state value with
  | nil =>
      rcases read_cons_inv h with ⟨hs, -⟩ | ⟨emitted, next, found, -, hr, -⟩
      · simpa using (step_finished hs).2
      · simp [read_no_quote next ht] at hr
  | cons c rest ih =>
      rcases read_cons_inv h with ⟨hs, -⟩ | ⟨emitted, next, found, hs, hr, rfl⟩
      · exact (step_finished hs).2.trans (Nat.le_add_right _ _)
      · have hstep := step_more hs
        have hrest := ih hr
        simp only [List.length_append, utf16_cons]
        omega

theorem step_plain {c : Char} (hc : isPlain c) : step .plain c = .more (units c) .plain := by
  simp only [isPlain, Bool.and_eq_true, decide_eq_true_eq] at hc
  obtain ⟨⟨⟨hquote, hbackslash⟩, hline⟩, hreturn⟩ := hc
  simp [step, plainStep, hquote, hbackslash, hline, hreturn]

theorem read_plain {text : Str} (h : ∀ c ∈ text, isPlain c) (after : Str) :
    read .plain (text ++ '"' :: after) = some (utf16 text, after) := by
  induction text with
  | nil => rfl
  | cons c rest ih =>
      have hrest := ih fun other hm => h other (List.mem_cons_of_mem _ hm)
      simp only [List.cons_append, read, step_plain (h c List.mem_cons_self), hrest,
        Option.map_some, utf16_cons]

-- A character that does not stand for itself makes the value shorter than the text.
theorem read_length_lt {text tail after : Str} {value : List UInt16} (ht : '"' ∉ tail)
    (hp : ¬∀ c ∈ text, isPlain c) (h : read .plain (text ++ '"' :: tail) = some (value, after)) :
    value.length < (utf16 text).length := by
  induction text generalizing value with
  | nil => exact absurd (by simp) hp
  | cons c rest ih =>
      have hpos := units_length_pos c
      simp only [utf16_cons, List.length_append]
      by_cases hc : isPlain c
      · rcases read_cons_inv h with ⟨hs, -⟩ | ⟨emitted, next, found, hs, hr, rfl⟩
        · simp [step_plain hc] at hs
        · rw [step_plain hc] at hs
          obtain ⟨rfl, rfl⟩ := Lexed.more.inj hs
          have hrest := ih (fun hall => hp (List.forall_mem_cons.mpr ⟨hc, hall⟩)) hr
          simp only [List.length_append]
          omega
      · rcases read_cons_inv h with ⟨hs, -⟩ | ⟨emitted, next, found, hs, hr, rfl⟩
        · obtain ⟨-, rfl⟩ := plainStep_finished hs
          simp only [List.length_nil]
          omega
        · -- Only the backslash goes on; it gives nothing itself.
          have hescape : emitted = [] ∧ next = .escape := by
            simp only [step, plainStep, isPlain, Bool.and_eq_true, decide_eq_true_eq] at hs hc
            split_ifs at hs with hquote hbackslash hline
            · obtain ⟨rfl, rfl⟩ := Lexed.more.inj hs
              exact ⟨rfl, rfl⟩
            · exact absurd ⟨⟨⟨hquote, hbackslash⟩, (not_or.mp hline).1⟩, (not_or.mp hline).2⟩ hc
          obtain ⟨rfl, rfl⟩ := hescape
          have hrest := read_length ht hr
          simp only [pending, List.nil_append] at hrest ⊢
          omega

-- A text between quotes reads as itself exactly when all its characters stand for themselves.
theorem read_eq_self_iff {text tail : Str} (ht : '"' ∉ tail) :
    read .plain (text ++ '"' :: tail) = some (utf16 text, tail) ↔ ∀ c ∈ text, isPlain c := by
  refine ⟨fun h => ?_, fun h => read_plain h tail⟩
  by_contra hp
  exact lt_irrefl _ (read_length_lt ht hp h)

-- A text as it can stand between quotes: a backslash before each quote and each backslash.
def escape (text : Str) : Str := text.flatMap fun c => if c = '\\' ∨ c = '"' then ['\\', c] else [c]

-- An escaped text reads as the text, up to the quote behind it.
theorem read_escape {text : Str} (h : ∀ c ∈ text, c ≠ '\n' ∧ c ≠ '\r') (after : Str) :
    read .plain (escape text ++ '"' :: after) = some (utf16 text, after) := by
  induction text with
  | nil => rfl
  | cons c rest ih =>
      obtain ⟨hc, hrest⟩ := List.forall_mem_cons.mp h
      have hread := ih hrest
      rw [escape] at hread
      by_cases hescaped : c = '\\' ∨ c = '"'
      · have hbackslash : step .plain '\\' = .more [] .escape := rfl
        have hself : step .escape c = .more (units c) .plain := by
          rcases hescaped with rfl | rfl <;> rfl
        simp only [escape, List.flatMap_cons, if_pos hescaped, List.cons_append, List.nil_append,
          read, hbackslash, hself, hread, Option.map_some, utf16_cons]
      · have hplain : isPlain c := by simpa [isPlain, hc, and_comm] using hescaped
        simp only [escape, List.flatMap_cons, if_neg hescaped, List.cons_append, List.nil_append,
          read, step_plain hplain, hread, Option.map_some, utf16_cons]

end Ytdlpdroid.Text.StringLiteral
