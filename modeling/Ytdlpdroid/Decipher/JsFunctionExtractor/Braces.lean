import Ytdlpdroid.Decipher.JsFunctionExtractor
import Ytdlpdroid.Text.Braces

namespace Ytdlpdroid

open Text

namespace JsFunctionExtractor

def IsQuote (c : Char) : Prop := c = '"' ∨ c = '\'' ∨ c = '\x60'

instance (c : Char) : Decidable (IsQuote c) := inferInstanceAs (Decidable (_ ∨ _ ∨ _))

-- What stands between the quotes of a literal: a backslash escapes exactly the next
-- character, and a template literal has no substitution.
inductive LiteralContent (q : Char) : Str → Prop
  | nil : LiteralContent q []
  | plain {c : Char} {rest : Str} :
      c ≠ q → c ≠ '\\' → ¬(q = '\x60' ∧ c = '$' ∧ rest.head? = some '\x7b') →
        LiteralContent q rest →
        LiteralContent q (c :: rest)
  | escaped (c : Char) {rest : Str} : LiteralContent q rest → LiteralContent q ('\\' :: c :: rest)

-- The reading of JavaScript texts without comments, regular expressions and substitutions.
def ecmascript : Lexis where
  ordinary := fun c => ¬IsQuote c ∧ c ≠ '/' ∧ c ≠ '\\' ∧ c ≠ '\x7b' ∧ c ≠ '\x7d'
  quote := IsQuote
  content := LiteralContent
  unterminated := fun q text =>
    LiteralContent q text ∨ ∃ init, LiteralContent q init ∧ text = init ++ ['\\']

-- The same reading of texts in which no literal ends in an escaped backslash.
def plainEnds : Lexis :=
  { ecmascript with content := fun q text => LiteralContent q text ∧ text.getLast? ≠ some '\\' }

-- Every `q` stands right after a backslash.
def AfterBackslash (q : Char) (text : Str) : Prop :=
  ∀ before after, text = before ++ q :: after → before.getLast? = some '\\'

-- The same reading up to the first literal that ends in an escaped backslash, where no later
-- quote of its kind could end it for one who looks at the character before a quote only.
def lostEnds : Lexis :=
  { plainEnds with
    unterminated := fun q text => ∃ content rest, LiteralContent q content ∧
      content.getLast? = some '\\' ∧ AfterBackslash q rest ∧ text = content ++ q :: rest }

-- The reading by which the quote that ends a literal is the first one that does not stand
-- right after a backslash, however many backslashes there are.
def backslashRule : Lexis where
  ordinary := fun c => ¬IsQuote c ∧ c ≠ '\x7b' ∧ c ≠ '\x7d'
  quote := IsQuote
  content := fun q text => AfterBackslash q text ∧ text.getLast? ≠ some '\\'
  unterminated := AfterBackslash

theorem IsQuote.ne_backslash {q : Char} (h : IsQuote q) : q ≠ '\\' := by
  rintro rfl
  exact absurd h (by decide)

theorem afterBackslash_append_iff {q c : Char} {text : Str} :
    AfterBackslash q (text ++ [c]) ↔ AfterBackslash q text ∧
      (c = q → text.getLast? = some '\\') := by
  constructor
  · intro h
    refine ⟨fun before after he => h before (after ++ [c]) (by simp [he]), ?_⟩
    rintro rfl
    exact h text [] rfl
  · rintro ⟨h, hc⟩ before after he
    rcases List.eq_nil_or_concat after with rfl | ⟨init, last, rfl⟩
    · obtain ⟨rfl, hlast⟩ := List.append_inj' he rfl
      exact hc (List.singleton_inj.mp hlast)
    · rw [List.concat_eq_append, ← List.cons_append, ← List.append_assoc] at he
      exact h before init (List.append_inj' he rfl).1

theorem AfterBackslash.append {q : Char} {left right : Str} (hleft : AfterBackslash q left)
    (hright : AfterBackslash q right) : AfterBackslash q (left ++ right) := by
  induction right using List.reverseRecOn with
  | nil => rwa [List.append_nil]
  | append_singleton init c ih =>
      obtain ⟨hinit, hc⟩ := afterBackslash_append_iff.mp hright
      rw [← List.append_assoc]
      refine afterBackslash_append_iff.mpr ⟨ih hinit, fun he => ?_⟩
      rw [List.getLast?_append, hc he]
      rfl

theorem LiteralContent.afterBackslash {q : Char} (hq : IsQuote q) {text : Str}
    (h : LiteralContent q text) :
    AfterBackslash q text := by
  induction h with
  | nil => exact fun before after he => absurd he (by simp)
  | @plain c rest hc _ _ _ ih =>
      intro before after he
      rcases List.cons_eq_append_iff.mp he with ⟨rfl, hcons⟩ | ⟨init, rfl, hrest⟩
      · exact absurd (List.cons.inj hcons).1.symm hc
      · rw [List.getLast?_cons, ih init after hrest]
        rfl
  | @escaped c rest _ ih =>
      intro before after he
      rcases List.cons_eq_append_iff.mp he with ⟨rfl, hcons⟩ | ⟨init, rfl, hrest⟩
      · exact absurd (List.cons.inj hcons).1 hq.ne_backslash
      · rcases List.cons_eq_append_iff.mp hrest with ⟨rfl, -⟩ | ⟨more, rfl, hmore⟩
        · rfl
        · rw [List.getLast?_cons, List.getLast?_cons, ih more after hmore]
          rfl

theorem plainEnds_le_ecmascript : plainEnds.Le ecmascript :=
  ⟨fun _ h => h, fun _ h => h, fun _ _ _ h => h.1, fun _ _ _ h => h⟩

-- The two rules differ on literals that end in an escaped backslash only.
theorem plainEnds_le_backslashRule : plainEnds.Le backslashRule where
  ordinary := fun _ h => ⟨h.1, h.2.2.2⟩
  quote := fun _ h => h
  content := fun _ _ hq h => ⟨h.1.afterBackslash hq, h.2⟩
  unterminated := by
    rintro q text hq (h | ⟨init, h, rfl⟩)
    · exact h.afterBackslash hq
    · exact afterBackslash_append_iff.mpr
        ⟨h.afterBackslash hq, fun he => absurd he.symm hq.ne_backslash⟩

theorem lostEnds_le_backslashRule : lostEnds.Le backslashRule where
  ordinary := plainEnds_le_backslashRule.ordinary
  quote := plainEnds_le_backslashRule.quote
  content := plainEnds_le_backslashRule.content
  unterminated := by
    rintro q text hq ⟨content, rest, hcontent, hlast, hrest, rfl⟩
    have hquote : AfterBackslash q (content ++ [q]) :=
      afterBackslash_append_iff.mpr ⟨hcontent.afterBackslash hq, fun _ => hlast⟩
    rw [← List.singleton_append, ← List.append_assoc]
    exact hquote.append hrest

-- From the left, the first `q` that does not stand after a backslash ends the literal.
theorem backslashRule_complete : backslashRule.Complete where
  character := by
    intro c hopen hclose
    by_cases hc : IsQuote c
    · exact .inr hc
    · exact .inl ⟨hc, hopen, hclose⟩
  literal := by
    intro q rest hq
    induction rest using List.reverseRecOn with
    | nil => exact .inr fun before after he => absurd he (by simp)
    | append_singleton init c ih =>
        rcases ih with ⟨content, after, hcontent, rfl⟩ | hinit
        · exact .inl ⟨content, after ++ [c], hcontent, by simp⟩
        by_cases hends : c = q ∧ init.getLast? ≠ some '\\'
        · obtain ⟨rfl, hlast⟩ := hends
          exact .inl ⟨init, [], ⟨hinit, hlast⟩, rfl⟩
        · refine .inr (afterBackslash_append_iff.mpr ⟨hinit, fun hc => ?_⟩)
          by_contra hlast
          exact hends ⟨hc, hlast⟩

section

variable {depth : Int} {previous : Option Char} {index : Nat} {c q : Char} {rest : Str}

theorem closing_ordinary (hc : backslashRule.ordinary c) :
    closing ⟨depth, none, previous⟩ index (c :: rest) = closing ⟨depth, none, some c⟩
      (index + 1) rest := by
  obtain ⟨hquote, hopen, hclose⟩ := hc
  unfold IsQuote at hquote
  rw [closing]
  simp only [Scan.read, hquote, hopen, hclose, if_false]

theorem closing_quote (hq : IsQuote q) :
    closing ⟨depth, none, previous⟩ index (q :: rest) = closing ⟨depth, some q, some q⟩
      (index + 1) rest := by
  unfold IsQuote at hq
  rw [closing]
  simp only [Scan.read, hq, if_true]

theorem closing_open :
    closing ⟨depth, none, previous⟩ index ('\x7b' :: rest) =
      closing ⟨depth + 1, none, some '\x7b'⟩ (index + 1) rest := by
  rw [closing]
  simp [Scan.read]

theorem closing_close :
    closing ⟨depth, none, previous⟩ index ('\x7d' :: rest) =
      if depth = 1 then some index else closing ⟨depth - 1, none, some '\x7d'⟩
        (index + 1) rest := by
  rw [closing]
  by_cases h : depth = 1
  · simp [Scan.read, h]
  · have hne : depth - 1 ≠ 0 := by omega
    simp [Scan.read, h, hne]

theorem closing_inString (h : c = q → previous = some '\\') :
    closing ⟨depth, some q, previous⟩ index (c :: rest) =
      closing ⟨depth, some q, some c⟩ (index + 1) rest := by
  rw [closing]
  by_cases hc : c = q
  · simp [Scan.read, hc, h hc]
  · simp [Scan.read, hc]

theorem closing_endString (h : previous ≠ some '\\') :
    closing ⟨depth, some q, previous⟩ index (q :: rest) =
      closing ⟨depth, none, some q⟩ (index + 1) rest := by
  rw [closing]
  simp [Scan.read, h]

-- Inside a literal of `q` the scan passes every text in which each `q` follows a backslash.
theorem closing_afterBackslash {text : Str} (h : AfterBackslash q text) :
    closing ⟨depth, some q, previous⟩ index (text ++ rest) =
      closing ⟨depth, some q, text.getLast?.or previous⟩ (index + text.length) rest := by
  induction text using List.reverseRecOn generalizing rest with
  | nil => rfl
  | append_singleton init c ih =>
      obtain ⟨hinit, hc⟩ := afterBackslash_append_iff.mp h
      rw [List.append_assoc, List.singleton_append, ih hinit,
        closing_inString fun he => by rw [hc he]; rfl]
      simp [Nat.add_assoc]

theorem closing_literal {content : Str} (hq : IsQuote q) (h : backslashRule.content q content) :
    closing ⟨depth, none, previous⟩ index (q :: (content ++ q :: rest)) =
      closing ⟨depth, none, some q⟩ (index + (content.length + 2)) rest := by
  have hlast : content.getLast?.or (some q) ≠ some '\\' := by
    cases hl : content.getLast? with
    | none => exact fun he => hq.ne_backslash (Option.some.inj he)
    | some last => exact fun he => h.2 (hl.trans he)
  rw [closing_quote hq, closing_afterBackslash h.1, closing_endString hlast]
  congr 1
  omega

-- Outside literals the scan comes out of a balanced text as deep as it went in.
theorem closing_balanced {text : Str} (h : Balanced backslashRule text) (hdepth : 1 ≤ depth) :
    ∃ last, closing ⟨depth, none, previous⟩ index (text ++ rest) =
      closing ⟨depth, none, last⟩ (index + text.length) rest := by
  induction h generalizing depth previous index rest with
  | nil => exact ⟨previous, rfl⟩
  | @ordinary c text hc _ ih =>
      obtain ⟨last, hrest⟩ := ih hdepth
      refine ⟨last, (closing_ordinary hc).trans (hrest.trans ?_)⟩
      rw [List.length_cons, Nat.add_assoc, Nat.add_comm 1]
  | @literal q content text hq hcontent _ ih =>
      obtain ⟨last, hrest⟩ := ih hdepth
      refine ⟨last, ?_⟩
      rw [List.append_assoc, List.cons_append, List.cons_append, closing_literal hq hcontent, hrest]
      congr 1
      simp only [List.length_append, List.length_cons]
      omega
  | @block inner text _ _ ihinner ihtext =>
      have hdeeper : 1 ≤ depth + 1 := by omega
      have hne : depth + 1 ≠ 1 := by omega
      obtain ⟨lastInner, hinner⟩ := ihinner hdeeper
      obtain ⟨last, htext⟩ := ihtext hdepth
      refine ⟨last, ?_⟩
      rw [List.append_assoc, List.cons_append, List.cons_append, closing_open, hinner,
        closing_close, if_neg hne, Int.add_sub_cancel, htext]
      congr 1
      simp only [List.length_append, List.length_cons]
      omega

theorem closing_unclosed {text : Str} (h : Unclosed backslashRule text) (hdepth : 1 ≤ depth) :
    closing ⟨depth, none, previous⟩ index text = none := by
  induction h generalizing depth previous index with
  | @balanced text h =>
      obtain ⟨last, hrest⟩ := closing_balanced h hdepth
      rw [← List.append_nil text, hrest, closing]
  | @literal text rest q h hq hskip =>
      obtain ⟨last, hrest⟩ := closing_balanced h hdepth
      rw [hrest, closing_quote hq, ← List.append_nil rest, closing_afterBackslash hskip, closing]
  | brace h _ ih =>
      obtain ⟨last, hrest⟩ := closing_balanced h hdepth
      rw [hrest, closing_open]
      exact ih (by omega)

end

theorem findMatchingBrace_append (before text : Str) :
    findMatchingBrace (before ++ text) before.length =
      closing ⟨0, none, before.getLast?⟩ before.length text := by
  rw [findMatchingBrace, List.take_left, List.drop_left]

theorem findMatchingBrace_of_matching {text : Str} {answer : Option Nat}
    (h : MatchingBrace backslashRule text answer) (before : Str) :
    findMatchingBrace (before ++ text) before.length = answer.map (before.length + ·) := by
  rw [findMatchingBrace_append]
  cases h with
  | @closed inner after h =>
      obtain ⟨last, hrest⟩ := closing_balanced h (Int.le_refl 1)
      rw [List.cons_append, closing_open, Int.zero_add, hrest, closing_close, if_pos rfl,
        Option.map_some, Nat.add_assoc, Nat.add_comm 1]
  | unclosed h =>
      rw [closing_open, Int.zero_add, closing_unclosed h (Int.le_refl 1), Option.map_none]

-- Every text from a brace on has a derivation by the backslash rule, and the answer is its.
theorem findMatchingBrace_spec (before rest : Str) :
    ∃ answer, MatchingBrace backslashRule ('\x7b' :: rest) answer ∧
      findMatchingBrace (before ++ '\x7b' :: rest) before.length = answer.map
        (before.length + ·) := by
  obtain ⟨answer, hanswer⟩ := backslashRule_complete.exists_matching rest
  exact ⟨answer, hanswer, findMatchingBrace_of_matching hanswer before⟩

-- The counterpart is found wherever no literal ends in an escaped backslash. Where one does
-- and no later quote ends it by chance, nothing is found.
theorem findMatchingBrace_respects_literals {text : Str} {answer : Option Nat} (before : Str) :
    (MatchingBrace plainEnds text answer → MatchingBrace ecmascript text answer ∧
      findMatchingBrace (before ++ text) before.length = answer.map (before.length + ·)) ∧
    (MatchingBrace lostEnds text none → findMatchingBrace (before ++ text) before.length = none) :=
  ⟨fun h => ⟨h.mono plainEnds_le_ecmascript,
      findMatchingBrace_of_matching (h.mono plainEnds_le_backslashRule) before⟩,
    fun h => findMatchingBrace_of_matching (h.mono lostEnds_le_backslashRule) before⟩

-- A block with the string `}\"`, in which a brace and a quote stand.
def quotedBrace : Str := str "\x7bs=\"\x7d\\\"\"\x7d"

theorem quotedBrace_matching : MatchingBrace plainEnds quotedBrace (some 8) := by
  have hcontent : LiteralContent '"' ['\x7d', '\\', '"'] :=
    .plain (by decide) (by decide) (by decide) (.escaped _ .nil)
  have hliteral : Balanced plainEnds ('"' :: ['\x7d', '\\', '"'] ++ ['"']) :=
    .literal (.inl rfl) ⟨hcontent, by decide⟩ .nil
  have hname : plainEnds.ordinary 's' ∧ plainEnds.ordinary '=' := by
    simp [plainEnds, ecmascript, IsQuote]
  exact .closed [] (.ordinary hname.1 (.ordinary hname.2 hliteral))

-- A block with the string `\\`, a single backslash.
def escapedBackslash : Str := str "\x7bs=\"\\\\\"\x7d"

theorem escapedBackslash_content : LiteralContent '"' ['\\', '\\'] := .escaped _ .nil

theorem escapedBackslash_lost : MatchingBrace lostEnds escapedBackslash none := by
  have hname : Balanced lostEnds ['s', '='] :=
    .of_ordinary (by simp [lostEnds, plainEnds, ecmascript, IsQuote])
  have hrest : AfterBackslash '"' ['\x7d'] := by
    rintro before after he
    rcases before with _ | ⟨c, _ | ⟨d, before⟩⟩ <;> simp at he
  exact .unclosed (.literal hname (.inl rfl)
    ⟨_, _, escapedBackslash_content, rfl, hrest, rfl⟩)

theorem findMatchingBrace_respects_quotedBrace :
    findMatchingBrace (str "f()" ++ quotedBrace) 3 = some 11 ∧
      findMatchingBrace (str "f()" ++ escapedBackslash) 3 = none :=
  ⟨((findMatchingBrace_respects_literals (str "f()")).1 quotedBrace_matching).2,
    (@findMatchingBrace_respects_literals _ none (str "f()")).2 escapedBackslash_lost⟩

theorem findMatchingBrace_misses_escapedBackslash :
    MatchingBrace ecmascript escapedBackslash (some 7) ∧
      findMatchingBrace escapedBackslash 0 = none := by
  have hliteral : Balanced ecmascript ('"' :: ['\\', '\\'] ++ ['"']) :=
    .literal (.inl rfl) escapedBackslash_content .nil
  have hname : ecmascript.ordinary 's' ∧ ecmascript.ordinary '=' := by simp [ecmascript, IsQuote]
  exact ⟨.closed [] (.ordinary hname.1 (.ordinary hname.2 hliteral)), by decide⟩

end JsFunctionExtractor

end Ytdlpdroid
