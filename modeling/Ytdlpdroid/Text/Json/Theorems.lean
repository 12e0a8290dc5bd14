import Ytdlpdroid.Text.Json
import Mathlib.Tactic.IntervalCases

namespace Ytdlpdroid.Text.Json

-- The characters that stand for themselves in a string.
def isPlain (c : Char) : Bool := c ≠ '"' && c ≠ '\\' && 0x20 ≤ c.toNat

-- Of the units read since an escape began, those that the escape can still give.
def pending : StringState → Nat
  | .plain | .escape => 0
  | .hex _ _ => 1

namespace Reader

theorem run_append (reader : Reader) (left right : Str) :
    reader.run (left ++ right) =
      (reader.run left).bind fun found =>
        (found.1.run right).map fun others => (others.1, found.2 ++ others.2) := by
  induction left generalizing reader with
  | nil =>
      simp only [List.nil_append, run, Option.bind_some]
      cases reader.run right <;> rfl
  | cons c rest ih =>
      simp only [List.cons_append, run, Option.bind_eq_bind]
      cases reader.step c with
      | none => rfl
      | some next =>
          simp only [Option.bind_some, ih]
          cases next.1.run rest with
          | none => rfl
          | some found =>
              simp only [Option.bind_some]
              cases found.1.run right with
              | none => rfl
              | some others =>
                  exact congrArg (fun entries => some (others.1, entries))
                    (List.append_assoc ..).symm

theorem run_append_of {reader middle last : Reader} {left right : Str} {first others : List Entry}
    (hleft : reader.run left = some (middle, first))
    (hright : middle.run right = some (last, others)) :
    reader.run (left ++ right) = some (last, first ++ others) := by
  rw [run_append, hleft, Option.bind_some, hright, Option.map_some]

-- A text that is read in two parts is read to its end only if each part is.
theorem run_append_inv {reader last : Reader} {left right : Str} {entries : List Entry}
    (h : reader.run (left ++ right) = some (last, entries)) :
    ∃ middle first others, reader.run left = some (middle, first) ∧
      middle.run right = some (last, others) ∧ entries = first ++ others := by
  rw [run_append] at h
  obtain ⟨⟨middle, first⟩, hleft, h⟩ := Option.bind_eq_some_iff.mp h
  obtain ⟨⟨final, others⟩, hright, he⟩ := Option.map_eq_some_iff.mp h
  obtain ⟨rfl, rfl⟩ := Prod.mk.inj he
  exact ⟨middle, first, others, hleft, hright, rfl⟩

theorem run_cons_inv {reader last : Reader} {c : Char} {rest : Str} {entries : List Entry}
    (h : reader.run (c :: rest) = some (last, entries)) :
    ∃ next first others, reader.step c = some (next, first) ∧ next.run rest = some (last, others) ∧
      entries = first ++ others := by
  simp only [run, Option.bind_eq_bind] at h
  obtain ⟨⟨next, first⟩, hstep, h⟩ := Option.bind_eq_some_iff.mp h
  obtain ⟨⟨final, others⟩, hrest, he⟩ := Option.bind_eq_some_iff.mp h
  obtain ⟨rfl, rfl⟩ := Prod.mk.inj (Option.some.inj he)
  exact ⟨next, first, others, hstep, hrest, rfl⟩

end Reader

theorem stringStep_plain {c : Char} (hc : isPlain c) :
    stringStep .plain c = .more .plain (units c) := by
  simp only [isPlain, Bool.and_eq_true, decide_eq_true_eq] at hc
  obtain ⟨⟨hquote, hbackslash⟩, hvisible⟩ := hc
  simp [stringStep, hquote, hbackslash, show ¬c.toNat < 0x20 by omega]

theorem stringStep_closed {state : StringState} {c : Char} (h : stringStep state c = .closed) :
    state = .plain ∧ c = '"' := by
  cases state with
  | plain =>
      simp only [stringStep] at h
      split_ifs at h with hc
      exact ⟨rfl, hc⟩
  | escape =>
      simp only [stringStep] at h
      split at h
      · simp at h
      · split_ifs at h
  | hex value left =>
      simp only [stringStep] at h
      split at h
      · simp at h
      · split_ifs at h

theorem visible_of_lookup {c : Char} {unit : UInt16} (h : singleEscapes.lookup c = some unit) :
    0x20 ≤ c.toNat := by
  have hmem : ∀ entry ∈ singleEscapes, 0x20 ≤ entry.1.toNat := by decide
  obtain ⟨before, after, he, -⟩ := List.lookup_eq_some_iff.mp h
  exact hmem (c, unit) (he ▸ List.mem_append_right before List.mem_cons_self)

theorem visible_of_hexDigit {c : Char} {digit : Nat} (h : asciiHexDigit c = some digit) :
    0x20 ≤ c.toNat := by
  have hdigit : ∀ low : Char, low ≤ c → low.toNat ≤ c.toNat := fun _ hl => hl
  unfold asciiHexDigit at h
  split_ifs at h with h0 ha hA
  · exact le_trans (by decide) (hdigit _ h0.1)
  · exact le_trans (by decide) (hdigit _ ha.1)
  · exact le_trans (by decide) (hdigit _ hA.1)

-- A character that is read is no control character. It gives at most the units it has
-- and those that were pending, and outside an escape it gives itself or begins an escape.
theorem stringStep_more {state next : StringState} {c : Char} {emitted : List UInt16}
    (h : stringStep state c = .more next emitted) :
    0x20 ≤ c.toNat ∧ emitted.length + pending next ≤ pending state + (units c).length ∧
      (state = .plain → (isPlain c ∧ next = .plain ∧ emitted = units c) ∨
        (next = .escape ∧ emitted = [])) := by
  have hpos := units_length_pos c
  cases state with
  | plain =>
      simp only [stringStep] at h
      split_ifs at h with hquote hbackslash hcontrol
      · obtain ⟨rfl, rfl⟩ := StringStep.more.inj h
        subst hbackslash
        exact ⟨by decide, by simp [pending], fun _ => Or.inr ⟨rfl, rfl⟩⟩
      · obtain ⟨rfl, rfl⟩ := StringStep.more.inj h
        have hplain : isPlain c := by
          simp [isPlain, hquote, hbackslash, show 0x20 ≤ c.toNat by omega]
        exact ⟨by omega, by simp [pending], fun _ => Or.inl ⟨hplain, rfl, rfl⟩⟩
  | escape =>
      simp only [stringStep] at h
      split at h
      · rename_i unit hl
        obtain ⟨rfl, rfl⟩ := StringStep.more.inj h
        refine ⟨visible_of_lookup hl, ?_, by simp⟩
        simp only [pending, List.length_singleton]
        omega
      · split_ifs at h with hu
        obtain ⟨rfl, rfl⟩ := StringStep.more.inj h
        subst hu
        exact ⟨by decide, by simp only [pending, List.length_nil]; omega, by simp⟩
  | hex value left =>
      simp only [stringStep] at h
      split at h
      · simp at h
      · rename_i digit hd
        have hvisible := visible_of_hexDigit hd
        split_ifs at h
        all_goals
          obtain ⟨rfl, rfl⟩ := StringStep.more.inj h
          refine ⟨hvisible, ?_, by simp⟩
          simp only [pending, List.length_nil, List.length_singleton]
          omega

namespace Reader

-- Inside a string, plain characters are read as themselves.
theorem run_plain (stack : List PathStep) (isKey : Bool) (read : List UInt16) {text : Str}
    (h : ∀ c ∈ text, isPlain c) :
    run ⟨stack, .string isKey .plain read⟩ text =
      some (⟨stack, .string isKey .plain (read ++ utf16 text)⟩, []) := by
  induction text generalizing read with
  | nil => simp [run]
  | cons c rest ih =>
      have hrest := ih (read ++ units c) fun other hm => h other (List.mem_cons_of_mem _ hm)
      simp only [run, step, stringStep_plain (h c List.mem_cons_self), Option.bind_eq_bind,
        Option.bind_some, hrest, utf16_cons, List.append_assoc, List.nil_append]

theorem run_close (stack : List PathStep) (read : List UInt16) :
    run ⟨stack, .string false .plain read⟩ ['"'] =
      some (⟨stack, .afterValue⟩, [⟨stack.reverse, .string read⟩]) := rfl

-- A string of plain characters, from its first character on.
theorem run_quoted (stack : List PathStep) {text : Str} (h : ∀ c ∈ text, isPlain c) :
    run ⟨stack, .string false .plain []⟩ (text ++ ['"']) =
      some (⟨stack, .afterValue⟩, [⟨stack.reverse, .string (utf16 text)⟩]) :=
  run_append_of (run_plain stack false [] h) (run_close stack (utf16 text))

-- A string that ends in a text ends at a quote before which there is no control character.
-- Its value is no longer than the text before this quote, and shorter than it if that is
-- not all plain.
theorem run_string_inv {stack : List PathStep} {state : StringState} {read : List UInt16}
    {text : Str} {last : Reader} {entries : List Entry}
    (h : run ⟨stack, .string false state read⟩ text = some (last, entries)) :
    (∃ state' read', last = ⟨stack, .string false state' read'⟩) ∨
      ∃ before after value more, text = before ++ '"' :: after ∧ (∀ c ∈ before, 0x20 ≤ c.toNat) ∧
        entries = ⟨stack.reverse, .string value⟩ :: more ∧
        value.length ≤ read.length + pending state + (utf16 before).length ∧
        (state = .plain →
          (∀ c ∈ before, isPlain c) ∨ value.length < read.length + (utf16 before).length) := by
  induction text generalizing state read entries with
  | nil =>
      obtain ⟨rfl, rfl⟩ := Prod.mk.inj (Option.some.inj h)
      exact Or.inl ⟨state, read, rfl⟩
  | cons c rest ih =>
      obtain ⟨next, first, others, hstep, hrest, rfl⟩ := run_cons_inv h
      simp only [step] at hstep
      cases hs : stringStep state c with
      | refused => simp [hs] at hstep
      | closed =>
          obtain ⟨rfl, rfl⟩ := stringStep_closed hs
          simp only [hs, close, Bool.false_eq_true, ite_false, Option.some.injEq,
            Prod.mk.injEq] at hstep
          obtain ⟨rfl, rfl⟩ := hstep
          exact Or.inr ⟨[], rest, read, others, rfl, by simp, rfl, by simp [pending], by simp⟩
      | more state' emitted =>
          obtain ⟨hvisible, hlength, hplain⟩ := stringStep_more hs
          simp only [hs, Option.some.injEq, Prod.mk.injEq] at hstep
          obtain ⟨rfl, rfl⟩ := hstep
          rcases ih hrest with hopen | ⟨before, after, value, more, rfl, hb, rfl, hbound, hshort⟩
          · exact Or.inl hopen
          · have hpos := units_length_pos c
            simp only [List.length_append] at hbound hshort
            refine Or.inr ⟨c :: before, after, value, more, rfl, ?_, rfl, ?_, fun hstate => ?_⟩
            · exact List.forall_mem_cons.mpr ⟨hvisible, hb⟩
            · simp only [utf16_cons, List.length_append]
              omega
            · simp only [utf16_cons, List.length_append]
              rcases hplain hstate with ⟨hc, rfl, rfl⟩ | ⟨rfl, rfl⟩
              · rcases hshort rfl with hall | hlt
                · exact Or.inl (List.forall_mem_cons.mpr ⟨hc, hall⟩)
                · exact Or.inr (by omega)
              · right
                simp only [pending, List.length_nil] at hbound
                omega

-- Read lines one after the other, each from a place where white space may stand.
def runLines (reader : Reader) : List Str → Option (Reader × List Entry)
  | [] => some (reader, [])
  | line :: rest =>
      if reader.step ' ' = some (reader, []) then do
        let (next, first) ← reader.run (line ++ ['\n'])
        let (last, others) ← next.runLines rest
        some (last, first ++ others)
      else none

theorem run_spaces {reader : Reader} (h : reader.step ' ' = some (reader, [])) (count : Nat)
    (text : Str) :
    reader.run (List.replicate count ' ' ++ text) = reader.run text := by
  induction count with
  | zero => rfl
  | succ count ih =>
      simp only [List.replicate_succ, List.cons_append, run, h, ih, Option.bind_eq_bind,
        Option.bind_some]
      cases reader.run text <;> rfl

-- Lines that are read so are read alike under any indent.
theorem run_of_runLines {reader last : Reader} {all : List Str} {entries : List Entry}
    (h : reader.runLines all = some (last, entries)) (count : Nat) :
    reader.run (all.flatMap fun line => List.replicate count ' ' ++ line ++ ['\n']) =
      some (last, entries) := by
  induction all generalizing reader entries with
  | nil => exact h
  | cons line rest ih =>
      simp only [runLines, Option.bind_eq_bind] at h
      split_ifs at h with hidle
      obtain ⟨⟨next, first⟩, hline, h⟩ := Option.bind_eq_some_iff.mp h
      obtain ⟨⟨final, others⟩, hrest, he⟩ := Option.bind_eq_some_iff.mp h
      obtain ⟨rfl, rfl⟩ := Prod.mk.inj (Option.some.inj he)
      rw [List.flatMap_cons, List.append_assoc (List.replicate count ' ')]
      exact run_append_of ((run_spaces hidle count _).trans hline) (ih hrest)

theorem mem_digits {d : Char} (hd : isDigit d) :
    d ∈ ['0', '1', '2', '3', '4', '5', '6', '7', '8', '9'] := by
  simp only [isDigit, Bool.and_eq_true, decide_eq_true_eq] at hd
  have hlo : 48 ≤ d.toNat := hd.1
  have hhi : d.toNat ≤ 57 := hd.2
  have hof := Char.ofNat_toNat d
  generalize d.toNat = n at hlo hhi hof
  subst hof
  interval_cases n <;> decide

-- The digits of a number, from any place where a number can go on with a digit.
theorem run_decimal {reader : Reader} {stack : List PathStep} {read : Str}
    (h : ∀ d, isDigit d → reader.step d =
      some (⟨stack, .number (if d = '0' then .zero else .integer) (read ++ [d])⟩, [])) (n : Nat) :
    reader.run (decimal n) =
      some (⟨stack, .number (if n = 0 then .zero else .integer) (read ++ decimal n)⟩, []) := by
  have hdigit : ∀ d < 10, isDigit d.digitChar ∧ (d.digitChar = '0' ↔ d = 0) := by decide
  induction n using Nat.strong_induction_on with
  | _ n ih =>
      by_cases hn : n < 10
      · obtain ⟨hd, hzero⟩ := hdigit n hn
        rw [decimal, Nat.toDigits_of_lt_base hn]
        simp only [run, h _ hd, hzero, Option.bind_eq_bind, Option.bind_some, List.append_nil]
      · have hfirst := ih (n / 10) (by omega)
        have hd := (hdigit (n % 10) (by omega)).1
        have hsplit : decimal n = decimal (n / 10) ++ [(n % 10).digitChar] :=
          Nat.toDigits_of_base_le (by decide) (by omega)
        rw [if_neg (by omega)] at hfirst
        rw [if_neg (by omega), hsplit]
        refine run_append_of hfirst ?_
        simp [run, step, numberStep, hd, List.append_assoc]

theorem begin_digit (stack : List PathStep) {d : Char} (hd : isDigit d) :
    step ⟨stack, .value⟩ d =
      some (⟨stack, .number (if d = '0' then .zero else .integer) ([] ++ [d])⟩, []) := by
  have hmem := mem_digits hd
  simp only [List.mem_cons, List.not_mem_nil, or_false] at hmem
  rcases hmem with rfl | rfl | rfl | rfl | rfl | rfl | rfl | rfl | rfl | rfl <;> rfl

theorem minus_digit (stack : List PathStep) {d : Char} (hd : isDigit d) :
    step ⟨stack, .number .minus ['-']⟩ d =
      some (⟨stack, .number (if d = '0' then .zero else .integer) (['-'] ++ [d])⟩, []) := by
  by_cases hzero : d = '0' <;> simp [step, numberStep, hzero, hd]

theorem run_decimalInt (stack : List PathStep) (n : Int) :
    ∃ state, state.complete ∧
      run ⟨stack, .value⟩ (decimalInt n) = some (⟨stack, .number state (decimalInt n)⟩, []) := by
  cases n with
  | ofNat n =>
      refine ⟨_, ?_, run_decimal (fun d hd => begin_digit stack hd) n⟩
      split_ifs <;> rfl
  | negSucc n =>
      have hdigits := run_decimal (fun d hd => minus_digit stack hd) (n + 1)
      have hminus : run ⟨stack, .value⟩ ['-'] = some (⟨stack, .number .minus ['-']⟩, []) := rfl
      refine ⟨_, ?_, run_append_of hminus hdigits⟩
      split_ifs <;> rfl

-- A document does not end inside a string.
theorem finish_string (stack : List PathStep) (isKey : Bool) (state : StringState)
    (read : List UInt16) :
    finish ⟨stack, .string isKey state read⟩ = none := by
  cases stack <;> rfl

end Reader

theorem parse_of_run {text : Str} {entries : List Entry}
    (h : Reader.start.run text = some (⟨[], .afterValue⟩, entries)) :
    parse text = some entries := by
  rw [parse, h]
  exact congrArg some (List.append_nil entries)

end Ytdlpdroid.Text.Json
