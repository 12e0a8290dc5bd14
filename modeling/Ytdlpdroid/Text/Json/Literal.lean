import Ytdlpdroid.Text.Json.Theorems

namespace Ytdlpdroid.Text.Json

-- The text between the quotes of a string, and the units that it stands for.
def IsLiteral (text : Str) (value : List UInt16) : Prop :=
  parse ('"' :: (text ++ ['"'])) = some [⟨[], .string value⟩]

instance (text : Str) (value : List UInt16) : Decidable (IsLiteral text value) :=
  inferInstanceAs (Decidable (parse _ = _))

-- What is read of a text inside a string that does not end in it.
def readString : StringState → List UInt16 → Str → Option (StringState × List UInt16)
  | state, read, [] => some (state, read)
  | state, read, c :: rest =>
      match stringStep state c with
      | .more next emitted => readString next (read ++ emitted) rest
      | _ => none

section

variable {state : StringState} {read value : List UInt16} {text more rest : Str} {isKey : Bool}

theorem visible_of_readString {found : StringState × List UInt16}
    (h : readString state read text = some found) :
    ∀ c ∈ text, 0x20 ≤ c.toNat := by
  induction text generalizing state read with
  | nil => exact fun c hc => absurd hc (by simp)
  | cons c text ih =>
      rw [readString] at h
      cases hs : stringStep state c with
      | closed => simp [hs] at h
      | refused => simp [hs] at h
      | more next emitted =>
          rw [hs] at h
          exact List.forall_mem_cons.mpr ⟨(stringStep_more hs).1, ih h⟩

namespace Reader

variable {stack : List PathStep}

-- Without a quote a string does not end, whatever it is the name or the value of.
theorem run_readString (stack : List PathStep) (isKey : Bool) (h : '"' ∉ text) :
    run ⟨stack, .string isKey state read⟩ text =
      (readString state read text).map fun found =>
        (⟨stack, .string isKey found.1 found.2⟩, []) := by
  induction text generalizing state read with
  | nil => rfl
  | cons c text ih =>
      obtain ⟨hc, htext⟩ : '"' ≠ c ∧ '"' ∉ text := by simpa using h
      simp only [run, step, readString, Option.bind_eq_bind]
      cases hs : stringStep state c with
      | closed => exact absurd (stringStep_closed hs).2 (Ne.symm hc)
      | refused => rfl
      | more next emitted =>
          simp only [Option.bind_some, ih htext]
          cases readString next (read ++ emitted) text <;> rfl

-- A control character is refused in a string.
theorem run_control {c : Char} (hc : c.toNat < 0x20) (h : '"' ∉ text) :
    run ⟨stack, .string isKey state read⟩ (text ++ c :: rest) = none := by
  rw [run_append, run_readString stack isKey h]
  cases hread : readString state read text with
  | none => rfl
  | some found =>
      have hstep : stringStep found.1 c = .refused := by
        cases hs : stringStep found.1 c with
        | closed =>
            obtain ⟨-, rfl⟩ := stringStep_closed hs
            exact absurd hc (by decide)
        | refused => rfl
        | more next emitted => exact absurd (stringStep_more hs).1 (by omega)
      simp only [Option.map_some, Option.bind_some, run, step, hstep]
      rfl

end Reader

theorem isLiteral_iff (h : '"' ∉ text) :
    IsLiteral text value ↔ readString .plain [] text = some (.plain, value) := by
  have hopen : Reader.start.run ['"'] = some (⟨[], .string false .plain []⟩, []) := rfl
  have hsplit : '"' :: (text ++ ['"']) = ['"'] ++ (text ++ ['"']) := rfl
  rw [IsLiteral, parse, hsplit, Reader.run_append, hopen]
  simp only [Option.bind_some, Reader.run_append, Reader.run_readString [] false h]
  cases hread : readString .plain [] text with
  | none => simp
  | some found =>
      obtain ⟨state, read⟩ := found
      cases state with
      | plain =>
          simp only [Option.map_some, Option.bind_some, Reader.run_close]
          simp [Reader.finish]
      | escape => simp [Reader.run, Reader.step, stringStep, singleEscapes, Reader.finish]
      | hex value left => simp [Reader.run, Reader.step, stringStep, asciiHexDigit]

namespace Reader

variable {stack : List PathStep}

-- A literal is read as what it stands for wherever a string may stand.
theorem run_literal (stack : List PathStep) (hquote : '"' ∉ text) (h : IsLiteral text value) :
    run ⟨stack, .string false .plain []⟩ (text ++ ['"']) =
      some (⟨stack, .afterValue⟩, [⟨stack.reverse, .string value⟩]) := by
  have hread : run ⟨stack, .string false .plain []⟩ text =
      some (⟨stack, .string false .plain value⟩, []) := by
    rw [run_readString stack false hquote, (isLiteral_iff hquote).mp h, Option.map_some]
  exact run_append_of hread (run_close stack value)

-- A text that is no literal takes the quote after it into its string, if it is read at all.
theorem run_not_literal {c : Char} (hc : c.toNat < 0x20) (hquote : '"' ∉ text) (hmore : '"' ∉ more)
    (h : ∀ value, ¬IsLiteral text value) :
    run ⟨stack, .string false .plain []⟩ (text ++ '"' :: (more ++ c :: rest)) = none := by
  rw [run_append, run_readString stack false hquote]
  cases hread : readString .plain [] text with
  | none => rfl
  | some found =>
      obtain ⟨state, read⟩ := found
      rw [Option.map_some, Option.bind_some]
      cases state with
      | plain => exact absurd ((isLiteral_iff hquote).mpr hread) (h read)
      | escape =>
          have hescaped : stringStep .escape '"' = .more .plain [0x22] := rfl
          simp only [run, step, hescaped, Option.bind_eq_bind, Option.bind_some,
            run_control hc hmore, Option.bind_none, Option.map_none]
      | hex value left => simp [run, step, stringStep, asciiHexDigit]

theorem runLines_append (reader : Reader) (first more : List Str) :
    reader.runLines (first ++ more) = (reader.runLines first).bind fun found =>
      (found.1.runLines more).map fun others => (others.1, found.2 ++ others.2) := by
  induction first generalizing reader with
  | nil =>
      simp only [List.nil_append, runLines, Option.bind_some]
      cases reader.runLines more <;> rfl
  | cons line first ih =>
      simp only [List.cons_append, runLines, Option.bind_eq_bind]
      split_ifs with hidle
      · cases hline : reader.run (line ++ ['\n']) with
        | none => rfl
        | some next =>
            simp only [Option.bind_some, ih]
            cases next.1.runLines first with
            | none => rfl
            | some found =>
                simp only [Option.bind_some]
                cases found.1.runLines more with
                | none => rfl
                | some others => simp
      · rfl

end Reader

theorem IsLiteral.visible (hquote : '"' ∉ text) (h : IsLiteral text value) :
    ∀ c ∈ text, 0x20 ≤ c.toNat :=
  visible_of_readString ((isLiteral_iff hquote).mp h)

end

end Ytdlpdroid.Text.Json
