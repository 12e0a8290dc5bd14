import Ytdlpdroid.Text.Basic

namespace Ytdlpdroid.Text

-- How a text with braces is read: the characters that stand for themselves, the quotes,
-- what a quote and its counterpart enclose, and what follows a quote that has no counterpart.
structure Lexis where
  ordinary : Char → Prop
  quote : Char → Prop
  content : Char → Str → Prop
  unterminated : Char → Str → Prop

-- Every brace outside the literals has its counterpart.
inductive Balanced (lexis : Lexis) : Str → Prop
  | nil : Balanced lexis []
  | ordinary {c : Char} {rest : Str} :
      lexis.ordinary c → Balanced lexis rest → Balanced lexis (c :: rest)
  | literal {q : Char} {content rest : Str} :
      lexis.quote q → lexis.content q content → Balanced lexis rest →
        Balanced lexis (q :: content ++ q :: rest)
  | block {inner rest : Str} :
      Balanced lexis inner → Balanced lexis rest →
        Balanced lexis ('\x7b' :: inner ++ '\x7d' :: rest)

-- No closing brace outside the literals is without its counterpart.
inductive Unclosed (lexis : Lexis) : Str → Prop
  | balanced {text : Str} : Balanced lexis text → Unclosed lexis text
  | literal {text rest : Str} {q : Char} :
      Balanced lexis text → lexis.quote q → lexis.unterminated q rest →
        Unclosed lexis (text ++ q :: rest)
  | brace {text rest : Str} :
      Balanced lexis text → Unclosed lexis rest → Unclosed lexis (text ++ '\x7b' :: rest)

-- Where the brace is closed that a text starts with.
inductive MatchingBrace (lexis : Lexis) : Str → Option Nat → Prop
  | closed {inner : Str} (after : Str) :
      Balanced lexis inner →
        MatchingBrace lexis ('\x7b' :: inner ++ '\x7d' :: after) (some (inner.length + 1))
  | unclosed {rest : Str} : Unclosed lexis rest → MatchingBrace lexis ('\x7b' :: rest) none

section

variable {lexis other : Lexis}

theorem Balanced.append {left right : Str} (hleft : Balanced lexis left)
    (hright : Balanced lexis right) :
    Balanced lexis (left ++ right) := by
  induction hleft with
  | nil => exact hright
  | ordinary hc _ ih => exact .ordinary hc ih
  | literal hq hcontent _ ih =>
      rw [List.append_assoc, List.cons_append]
      exact .literal hq hcontent ih
  | block hinner _ _ ih =>
      rw [List.append_assoc, List.cons_append]
      exact .block hinner ih

theorem Balanced.of_ordinary {text : Str} (h : ∀ c ∈ text, lexis.ordinary c) :
    Balanced lexis text := by
  induction text with
  | nil => exact .nil
  | cons c rest ih =>
      obtain ⟨hc, hrest⟩ := List.forall_mem_cons.mp h
      exact .ordinary hc (ih hrest)

theorem Unclosed.append {left right : Str} (hleft : Balanced lexis left)
    (hright : Unclosed lexis right) :
    Unclosed lexis (left ++ right) := by
  cases hright with
  | balanced h => exact .balanced (hleft.append h)
  | literal h hq hrest =>
      rw [← List.append_assoc]
      exact .literal (hleft.append h) hq hrest
  | brace h hrest =>
      rw [← List.append_assoc]
      exact .brace (hleft.append h) hrest

-- What one lexis reads, the other reads in the same way.
structure Lexis.Le (lexis other : Lexis) : Prop where
  ordinary : ∀ c, lexis.ordinary c → other.ordinary c
  quote : ∀ q, lexis.quote q → other.quote q
  content : ∀ q text, lexis.quote q → lexis.content q text → other.content q text
  unterminated : ∀ q text, lexis.quote q → lexis.unterminated q text → other.unterminated q text

theorem Balanced.mono (hle : lexis.Le other) {text : Str} (h : Balanced lexis text) :
    Balanced other text := by
  induction h with
  | nil => exact .nil
  | ordinary hc _ ih => exact .ordinary (hle.ordinary _ hc) ih
  | literal hq hcontent _ ih => exact .literal (hle.quote _ hq) (hle.content _ _ hq hcontent) ih
  | block _ _ ihinner ihrest => exact .block ihinner ihrest

theorem Unclosed.mono (hle : lexis.Le other) {text : Str} (h : Unclosed lexis text) :
    Unclosed other text := by
  induction h with
  | balanced h => exact .balanced (h.mono hle)
  | literal h hq hrest =>
      exact .literal (h.mono hle) (hle.quote _ hq) (hle.unterminated _ _ hq hrest)
  | brace h _ ih => exact .brace (h.mono hle) ih

theorem MatchingBrace.mono (hle : lexis.Le other) {text : Str} {answer : Option Nat}
    (h : MatchingBrace lexis text answer) : MatchingBrace other text answer := by
  cases h with
  | closed after h => exact .closed after (h.mono hle)
  | unclosed h => exact .unclosed (h.mono hle)

-- Every character but the braces is read, and every quote has its counterpart or none.
structure Lexis.Complete (lexis : Lexis) : Prop where
  character : ∀ c, c ≠ '\x7b' → c ≠ '\x7d' → lexis.ordinary c ∨ lexis.quote c
  literal : ∀ q rest, lexis.quote q →
    (∃ content after, lexis.content q content ∧ rest = content ++ q :: after) ∨
      lexis.unterminated q rest

-- A text runs into a closing brace without counterpart, or has none. The induction is on the
-- length, because a literal and a block are passed in one step.
theorem Lexis.Complete.closed_or_unclosed (h : lexis.Complete) (text : Str) :
    (∃ inner after, Balanced lexis inner ∧ text = inner ++ '\x7d' :: after) ∨
      Unclosed lexis text := by
  induction hn : text.length using Nat.strong_induction_on generalizing text with
  | _ n ih =>
      have skip : ∀ passed rest, Balanced lexis passed → text = passed ++ rest → rest.length < n →
          (∃ inner after, Balanced lexis inner ∧ text = inner ++ '\x7d' :: after) ∨
            Unclosed lexis text := by
        rintro passed rest hpassed rfl hlt
        rcases ih _ hlt rest rfl with ⟨inner, after, hinner, rfl⟩ | hrest
        · exact .inl ⟨passed ++ inner, after, hpassed.append hinner, (List.append_assoc ..).symm⟩
        · exact .inr (.append hpassed hrest)
      cases text with
      | nil => exact .inr (.balanced .nil)
      | cons c rest =>
          rw [List.length_cons] at hn
          by_cases hopen : c = '\x7b'
          · subst hopen
            rcases ih rest.length (by omega) rest rfl with ⟨inner, after, hinner, rfl⟩ | hrest
            · rw [List.length_append, List.length_cons] at hn
              exact skip _ after (.block hinner .nil) (by simp) (by omega)
            · exact .inr (.brace .nil hrest)
          by_cases hclose : c = '\x7d'
          · exact .inl ⟨[], rest, .nil, by rw [hclose]; rfl⟩
          rcases h.character c hopen hclose with hc | hc
          · exact skip [c] rest (.ordinary hc .nil) rfl (by omega)
          · rcases h.literal c rest hc with ⟨content, after, hcontent, rfl⟩ | hrest
            · rw [List.length_append, List.length_cons] at hn
              exact skip _ after (.literal hc hcontent .nil) (by simp) (by omega)
            · exact .inr (.literal .nil hc hrest)

theorem Lexis.Complete.exists_matching (h : lexis.Complete) (rest : Str) :
    ∃ answer, MatchingBrace lexis ('\x7b' :: rest) answer := by
  rcases h.closed_or_unclosed rest with ⟨inner, after, hinner, rfl⟩ | hrest
  · exact ⟨_, .closed after hinner⟩
  · exact ⟨_, .unclosed hrest⟩

theorem closing_ne_opening : '\x7d' ≠ '\x7b' := by decide

-- A suffix of a balanced text opens no more braces than it closes, unless a quote stands in it.
theorem Balanced.count_suffix_le (hordinary : ∀ c, lexis.ordinary c → c ≠ '\x7b' ∧ c ≠ '\x7d')
    {text : Str} (h : Balanced lexis text) {suffix : Str} (hsuffix : suffix <:+ text)
    (hquote : ∀ c ∈ suffix, ¬lexis.quote c) : suffix.count '\x7b' ≤ suffix.count '\x7d' := by
  induction h generalizing suffix with
  | nil => simp [List.suffix_nil.mp hsuffix]
  | @ordinary c rest hc _ ih =>
      rcases List.suffix_cons_iff.mp hsuffix with rfl | hrest
      · have hcount := ih (List.suffix_refl rest) fun c hm => hquote c (List.mem_cons_of_mem _ hm)
        obtain ⟨hopen, hclose⟩ := hordinary c hc
        rwa [List.count_cons_of_ne hopen, List.count_cons_of_ne hclose]
      · exact ih hrest hquote
  | @literal q content rest hq _ _ ih =>
      have hfrom : q :: rest <:+ q :: content ++ q :: rest := List.suffix_append ..
      rcases List.suffix_or_suffix_of_suffix hsuffix hfrom with hshort | hlong
      · rcases List.suffix_cons_iff.mp hshort with rfl | hrest
        · exact (hquote q List.mem_cons_self hq).elim
        · exact ih hrest hquote
      · exact (hquote q (hlong.subset List.mem_cons_self) hq).elim
  | @block inner rest _ _ ihinner ihrest =>
      have hfrom : '\x7d' :: rest <:+ '\x7b' :: inner ++ '\x7d' :: rest := List.suffix_append ..
      rcases List.suffix_or_suffix_of_suffix hsuffix hfrom with hshort | ⟨more, rfl⟩
      · rcases List.suffix_cons_iff.mp hshort with rfl | hrest
        · have hcount := ihrest (List.suffix_refl rest) fun c hm =>
            hquote c (List.mem_cons_of_mem _ hm)
          rw [List.count_cons_self, List.count_cons_of_ne closing_ne_opening]
          omega
        · exact ihrest hrest hquote
      · obtain ⟨passed, hpassed⟩ := hsuffix
        rw [← List.append_assoc, List.append_cancel_right_eq] at hpassed
        have hrest := ihrest (List.suffix_refl rest) fun c hm =>
          hquote c (List.mem_append_right more (List.mem_cons_of_mem _ hm))
        have hmore : more.count '\x7b' ≤ more.count '\x7d' + 1 := by
          rcases List.suffix_cons_iff.mp ⟨passed, hpassed⟩ with rfl | hinner
          · have hcount := ihinner (List.suffix_refl inner) fun c hm =>
              hquote c (List.mem_append_left _ (List.mem_cons_of_mem _ hm))
            rw [List.count_cons_self, List.count_cons_of_ne closing_ne_opening.symm]
            omega
          · have hcount := ihinner hinner fun c hm => hquote c (List.mem_append_left _ hm)
            omega
        simp only [List.count_append, List.count_cons_self,
          List.count_cons_of_ne closing_ne_opening]
        omega

-- Without quotes a balanced text opens as many braces as it closes.
theorem Balanced.count_eq (hordinary : ∀ c, lexis.ordinary c → c ≠ '\x7b' ∧ c ≠ '\x7d')
    (hquote : ∀ q, ¬lexis.quote q) {text : Str} (h : Balanced lexis text) :
    text.count '\x7b' = text.count '\x7d' := by
  induction h with
  | nil => rfl
  | @ordinary c rest hc _ ih =>
      obtain ⟨hopen, hclose⟩ := hordinary c hc
      rwa [List.count_cons_of_ne hopen, List.count_cons_of_ne hclose]
  | literal hq _ _ _ => exact (hquote _ hq).elim
  | block _ _ ihinner ihrest =>
      simp only [List.cons_append, List.count_append, List.count_cons_self,
        List.count_cons_of_ne closing_ne_opening, List.count_cons_of_ne closing_ne_opening.symm]
      omega

theorem Balanced.ordinary_or_brace (hquote : ∀ q, ¬lexis.quote q) {text : Str}
    (h : Balanced lexis text) :
    ∀ c ∈ text, lexis.ordinary c ∨ c = '\x7b' ∨ c = '\x7d' := by
  induction h with
  | nil => simp
  | ordinary hc _ ih => exact List.forall_mem_cons.mpr ⟨.inl hc, ih⟩
  | literal hq _ _ _ => exact (hquote _ hq).elim
  | block _ _ ihinner ihrest =>
      intro c hm
      rcases List.mem_append.mp hm with hm | hm
      · rcases List.mem_cons.mp hm with rfl | hm
        · exact .inr (.inl rfl)
        · exact ihinner c hm
      · rcases List.mem_cons.mp hm with rfl | hm
        · exact .inr (.inr rfl)
        · exact ihrest c hm

end

end Ytdlpdroid.Text
