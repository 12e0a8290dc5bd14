import Ytdlpdroid.Decipher.JsFunctionExtractor.Braces
import Ytdlpdroid.Decipher.NParamDecipherer
import Ytdlpdroid.Text.Regex.Language

namespace Ytdlpdroid

open Text

namespace JsFunctionExtractor

-- White space, a parameter list without a closing parenthesis, and white space.
def IsParameters (text : Str) : Prop :=
  ∃ left params right, text = left ++ '(' :: params ++ ')' :: right ∧
    (∀ c ∈ left, Regex.isSpace c) ∧ ')' ∉ params ∧ ∀ c ∈ right, Regex.isSpace c

-- `fnName=function(params)`
def IsAssignment (fnName head : Str) : Prop :=
  ∃ left right params, head = fnName ++ left ++ str "=" ++ right ++ str "function" ++ params ∧
    (∀ c ∈ left, Regex.isSpace c) ∧ (∀ c ∈ right, Regex.isSpace c) ∧ IsParameters params

-- `function fnName(params)`
def IsDeclaration (fnName head : Str) : Prop :=
  ∃ gap params, head = str "function" ++ gap ++ fnName ++ params ∧
    gap ≠ [] ∧ (∀ c ∈ gap, Regex.isSpace c) ∧ IsParameters params

def IsHeader (fnName head : Str) : Prop := IsAssignment fnName head ∨ IsDeclaration fnName head

def IsBlock (lexis : Lexis) (body : Str) : Prop :=
  ∃ inner, Balanced lexis inner ∧ body = '\x7b' :: (inner ++ ['\x7d'])

-- What is taken from a place on: all up to the brace that closes the first one.
def SourceAt (rest text : Str) : Prop :=
  ∃ head body after, '\x7b' ∉ head ∧ IsBlock backslashRule body ∧ text = head ++ body ∧
    rest = text ++ after

-- Texts without quotes and backslashes.
def unquoted : Lexis where
  ordinary := fun c => ¬IsQuote c ∧ c ≠ '\\' ∧ c ≠ '\x7b' ∧ c ≠ '\x7d'
  quote := fun _ => False
  content := fun _ _ => False
  unterminated := fun _ _ => False

theorem unquoted_le_backslashRule : unquoted.Le backslashRule :=
  ⟨fun _ h => ⟨h.1, h.2.2⟩, fun _ h => h.elim, fun _ _ h => h.elim, fun _ _ h => h.elim⟩

theorem startPattern_anchorFree (fnName : Str) : (startPattern fnName).AnchorFree := by
  simp [startPattern, Regex.sequence, Regex.AnchorFree, Regex.anchorFree_literal, Regex.spaces,
    Regex.spaces1]

-- \s*\([^)]*\)\s*\{
theorem denotes_parameters {text : Str} :
    (Regex.sequence [.spaces, .literal (str "("), .many (· != ')') 0 none, .literal (str ")"),
      .spaces, .literal (str "\x7b")]).Denotes text ↔ ∃ params, IsParameters params ∧
        text = params ++ ['\x7b'] := by
  simp only [Regex.sequence, Regex.Denotes, Regex.denotes_literal, Regex.denotes_spaces]
  constructor
  · rintro ⟨left, -, rfl, hleft, -, -, rfl, rfl, params, -, rfl, ⟨hparams, -⟩, -, -, rfl, rfl,
      right, -, rfl, hright, rfl⟩
    have hclose : ')' ∉ params := fun hm => by simpa using hparams _ hm
    exact ⟨_, ⟨left, params, right, rfl, hleft, hclose, hright⟩, by simp [str]⟩
  · rintro ⟨-, ⟨left, params, right, rfl, hleft, hclose, hright⟩, rfl⟩
    have hparams : ∀ c ∈ params, (c != ')') = true :=
      fun c hm => bne_iff_ne.mpr fun he => hclose (he ▸ hm)
    have htail : right ++ ['\x7b'] = right ++ str "\x7b" := rfl
    exact ⟨left, _, by simp [str], hleft, _, _, rfl, rfl, params, _, rfl, ⟨hparams, by simp⟩,
      _, _, rfl, rfl, right, _, htail, hright, rfl⟩

-- $escaped\s*=\s*function
theorem denotes_assignment {fnName form : Str} :
    (Regex.sequence [.literal fnName, .spaces, .literal (str "="), .spaces,
      .literal (str "function")]).Denotes form ↔
      ∃ left right, form = fnName ++ left ++ str "=" ++ right ++ str "function" ∧
        (∀ c ∈ left, Regex.isSpace c) ∧ ∀ c ∈ right, Regex.isSpace c := by
  simp only [Regex.sequence, Regex.Denotes, Regex.denotes_literal, Regex.denotes_spaces]
  constructor
  · rintro ⟨-, -, rfl, rfl, left, -, rfl, hleft, -, -, rfl, rfl, right, -, rfl, hright, rfl⟩
    exact ⟨left, right, by simp, hleft, hright⟩
  · rintro ⟨left, right, rfl, hleft, hright⟩
    have hsplit : fnName ++ left ++ str "=" ++ right ++ str "function" =
        fnName ++ (left ++ (str "=" ++ (right ++ str "function"))) := by
          simp only [List.append_assoc]
    exact ⟨_, _, hsplit, rfl, left, _, rfl, hleft, _, _, rfl, rfl, right, _, rfl, hright, rfl⟩

-- function\s+$escaped
theorem denotes_declaration {fnName form : Str} :
    (Regex.sequence [.literal (str "function"), .spaces1, .literal fnName]).Denotes form ↔
      ∃ gap, form = str "function" ++ gap ++ fnName ∧ gap ≠ [] ∧ ∀ c ∈ gap, Regex.isSpace c := by
  simp only [Regex.sequence, Regex.Denotes, Regex.denotes_literal, Regex.denotes_spaces1]
  constructor
  · rintro ⟨-, -, rfl, rfl, gap, -, rfl, hgap, rfl⟩
    exact ⟨gap, (List.append_assoc ..).symm, hgap⟩
  · rintro ⟨gap, rfl, hgap⟩
    exact ⟨_, _, List.append_assoc .., rfl, gap, _, rfl, hgap, rfl⟩

theorem denotes_startPattern {fnName text : Str} :
    (startPattern fnName).Denotes text ↔ ∃ head, IsHeader fnName head ∧
      text = head ++ ['\x7b'] := by
  constructor
  · rintro ⟨form, tail, rfl, hform, htail⟩
    obtain ⟨params, hparams, rfl⟩ := denotes_parameters.mp htail
    refine ⟨form ++ params, ?_, (List.append_assoc ..).symm⟩
    rcases hform with hform | hform
    · obtain ⟨left, right, rfl, hleft, hright⟩ := denotes_assignment.mp hform
      exact .inl ⟨left, right, params, rfl, hleft, hright, hparams⟩
    · obtain ⟨gap, rfl, hne, hgap⟩ := denotes_declaration.mp hform
      exact .inr ⟨gap, params, rfl, hne, hgap, hparams⟩
  · rintro ⟨-, ⟨left, right, params, rfl, hleft, hright, hparams⟩ | ⟨gap, params, rfl, hne, hgap,
      hparams⟩, rfl⟩
    · exact ⟨_, _, List.append_assoc ..,
        .inl (denotes_assignment.mpr ⟨left, right, rfl, hleft, hright⟩),
        denotes_parameters.mpr ⟨params, hparams, rfl⟩⟩
    · exact ⟨_, _, List.append_assoc .., .inr (denotes_declaration.mpr ⟨gap, rfl, hne, hgap⟩),
        denotes_parameters.mpr ⟨params, hparams, rfl⟩⟩

theorem exists_brace {fnName rest : Str} (h : (startPattern fnName).MatchesAt rest) :
    ∃ head tail, '\x7b' ∉ head ∧ rest = head ++ '\x7b' :: tail := by
  obtain ⟨text, ⟨more, rfl⟩, htext⟩ := h
  obtain ⟨header, -, rfl⟩ := denotes_startPattern.mp htext
  have hm : '\x7b' ∈ header ++ ['\x7b'] ++ more := by simp
  obtain ⟨head, tail, hsplit, hhead⟩ := List.eq_append_cons_of_mem hm
  exact ⟨head, tail, hhead, hsplit⟩

-- The text up to the closing brace of a block.
theorem take_block (lead inner after : Str) :
    (lead ++ '\x7b' :: (inner ++ '\x7d' :: after)).take (lead.length + (inner.length + 1) + 1) =
      lead ++ '\x7b' :: (inner ++ ['\x7d']) := by
  have hsplit : lead ++ '\x7b' :: (inner ++ '\x7d' :: after) =
      lead ++ '\x7b' :: (inner ++ ['\x7d']) ++ after := by
    simp
  have hlength : lead.length + (inner.length + 1) + 1 =
      (lead ++ '\x7b' :: (inner ++ ['\x7d'])).length := by
    simp only [List.length_append, List.length_cons, List.length_nil]
    omega
  rw [hsplit, hlength, List.take_left]

-- The brace that counts is the first one from the leftmost place on.
theorem openBrace_of_leftmost {r : Regex} (hr : r.AnchorFree) {before head tail : Str}
    (hhead : '\x7b' ∉ head) (hleft : r.Leftmost before (head ++ '\x7b' :: tail)) :
    ∃ found, r.find (before ++ (head ++ '\x7b' :: tail)) = some found ∧
      found.first = before.length ∧ openBrace (before ++ (head ++ '\x7b' :: tail)) found.first =
        some (before ++ head).length := by
  obtain ⟨found, hfind, hfirst⟩ := Option.map_eq_some_iff.mp
    ((Regex.find_eq_some_iff hr).mpr ⟨before, _, rfl, hleft, rfl⟩)
  refine ⟨found, hfind, hfirst, ?_⟩
  rw [openBrace, hfirst, List.drop_left, indexOf_append_cons hhead, Option.map_some,
    List.length_append]

-- The text goes from the leftmost place to the counterpart of the first brace after it.
theorem extractFunctionBody_of_leftmost {fnName before head tail : Str} (hhead : '\x7b' ∉ head)
    (hleft : (startPattern fnName).Leftmost before (head ++ '\x7b' :: tail)) :
    extractFunctionBody (before ++ (head ++ '\x7b' :: tail)) fnName =
      (findMatchingBrace (before ++ head ++ '\x7b' :: tail) (before ++ head).length).map
        fun closePos =>
          ((before ++ (head ++ '\x7b' :: tail)).take (closePos + 1)).drop before.length := by
  obtain ⟨found, hfind, hfirst, hopen⟩ :=
    openBrace_of_leftmost (startPattern_anchorFree fnName) hhead hleft
  rw [extractFunctionBody, hfind, Option.bind_eq_bind, Option.bind_some, hopen, Option.bind_eq_bind,
    Option.bind_some, hfirst, List.append_assoc]
  exact (Option.map_eq_bind ..).symm

theorem extractFunctionBody_iff {js fnName text : Str} :
    extractFunctionBody js fnName = some text ↔
      ∃ before rest, js = before ++ rest ∧ (startPattern fnName).Leftmost before rest ∧
        SourceAt rest text := by
  -- What is taken when the block after the head has this inner part.
  have htake : ∀ before head inner after : Str,
      ((before ++ (head ++ '\x7b' :: (inner ++ '\x7d' :: after))).take
        ((before ++ head).length + (inner.length + 1) + 1)).drop before.length =
          head ++ '\x7b' :: (inner ++ ['\x7d']) := by
    intro before head inner after
    rw [← List.append_assoc, take_block, List.append_assoc, List.drop_left]
  constructor
  · intro h
    obtain ⟨found, hfound, -⟩ := Option.bind_eq_some_iff.mp h
    obtain ⟨before, rest, rfl, hleft, -⟩ :=
      (Regex.find_eq_some_iff (startPattern_anchorFree fnName)).mp
      (Option.map_eq_some_iff.mpr ⟨found, hfound, rfl⟩)
    refine ⟨before, rest, rfl, hleft, ?_⟩
    obtain ⟨head, tail, hhead, rfl⟩ := exists_brace hleft.1
    obtain ⟨answer, hanswer, hspec⟩ := findMatchingBrace_spec (before ++ head) tail
    rw [extractFunctionBody_of_leftmost hhead hleft, hspec] at h
    cases hanswer with
    | @closed inner after hinner =>
        obtain rfl := (htake ..).symm.trans (Option.some.inj h)
        exact ⟨head, _, after, hhead, ⟨inner, hinner, rfl⟩, rfl, by simp⟩
    | unclosed _ => simp at h
  · rintro ⟨before, rest, rfl, hleft, head, -, after, hhead, ⟨inner, hinner, rfl⟩, rfl, rfl⟩
    rw [List.append_assoc, List.cons_append, List.append_assoc, List.singleton_append] at hleft ⊢
    have hclose := findMatchingBrace_of_matching (.closed after hinner) (before ++ head)
    rw [List.cons_append] at hclose
    rw [extractFunctionBody_of_leftmost hhead hleft, hclose, Option.map_some,
      Option.map_some, htake]

theorem leftmost_of_first {fnName before head body after : Str} (hhead : IsHeader fnName head)
    (hbody : IsBlock unquoted body)
    (hfirst : ∀ other header more, IsHeader fnName header →
      other ++ (header ++ '\x7b' :: more) = before ++ (head ++ (body ++ after)) →
        before.length ≤ other.length) :
    (startPattern fnName).Leftmost before (head ++ (body ++ after)) := by
  obtain ⟨inner, -, rfl⟩ := hbody
  have hstarts : head ++ ['\x7b'] <+: head ++ ('\x7b' :: (inner ++ ['\x7d']) ++ after) :=
    ⟨inner ++ ['\x7d'] ++ after, by simp⟩
  refine ⟨⟨_, hstarts, denotes_startPattern.mpr ⟨head, hhead, rfl⟩⟩, ?_⟩
  rintro other - he ⟨text, ⟨more, rfl⟩, htext⟩
  obtain ⟨header, hheader, rfl⟩ := denotes_startPattern.mp htext
  exact hfirst other header more hheader (by rw [← he]; simp)

-- A block that starts before the body cannot end where the body ends: the body alone
-- opens as many braces as it closes.
theorem no_brace_before_body {text more inner : Str} (hinner : Balanced unquoted inner)
    (h : Balanced backslashRule text) : text ≠ more ++ '\x7b' :: inner := by
  rintro rfl
  have hquote : ∀ c ∈ '\x7b' :: inner, ¬IsQuote c := by
    refine List.forall_mem_cons.mpr ⟨by decide, fun c hm => ?_⟩
    rcases hinner.ordinary_or_brace (fun _ hq => hq) c hm with hc | rfl | rfl
    · exact hc.1
    · decide
    · decide
  have hrule : ∀ c, backslashRule.ordinary c → c ≠ '\x7b' ∧ c ≠ '\x7d' := fun _ hc => hc.2
  have hplain : ∀ c, unquoted.ordinary c → c ≠ '\x7b' ∧ c ≠ '\x7d' := fun _ hc => hc.2.2
  have hle := h.count_suffix_le hrule (List.suffix_append more _) hquote
  have heq := hinner.count_eq hplain fun _ hq => hq
  rw [List.count_cons_self, List.count_cons_of_ne closing_ne_opening.symm] at hle
  omega

theorem extractFunctionBody_whole_iff {fnName before head body after : Str}
    (hhead : IsHeader fnName head) (hbody : IsBlock unquoted body)
    (honly : ∀ other header more, IsHeader fnName header →
      other ++ (header ++ '\x7b' :: more) = before ++ (head ++ (body ++ after)) → other = before) :
    extractFunctionBody (before ++ (head ++ (body ++ after))) fnName = some (head ++ body) ↔
      '\x7b' ∉ head := by
  have hleft := leftmost_of_first hhead hbody fun other header more hheader he =>
    (congrArg List.length (honly other header more hheader he)).ge
  obtain ⟨inner, hinner, rfl⟩ := hbody
  rw [extractFunctionBody_iff]
  constructor
  · rintro ⟨other, rest, he, hother, first, -, more, hfirst, ⟨block, hblock, rfl⟩, hsource, -⟩ hm
    obtain ⟨start, params, rfl, hstart⟩ := List.eq_append_cons_of_mem hm
    rw [List.append_assoc, List.cons_append] at hsource
    obtain ⟨-, htail⟩ := split_before_unique hstart hfirst hsource
    rw [← List.cons_append, ← List.append_assoc, List.append_cancel_right_eq] at htail
    exact no_brace_before_body hinner hblock htail.symm
  · intro hm
    exact ⟨before, _, rfl, hleft, head, _, after, hm,
      ⟨inner, hinner.mono unquoted_le_backslashRule, rfl⟩, rfl, (List.append_assoc ..).symm⟩

-- The places where the definition pattern matches.
def places (fnName js : Str) : List Nat :=
  (List.range (js.length + 1)).filter fun first =>
    !((startPattern fnName).ends ⟨0, js.drop first, []⟩).isEmpty

theorem mem_places {fnName before header more rest : Str} (hheader : IsHeader fnName header)
    (he : before ++ (header ++ '\x7b' :: more) = rest) : before.length ∈ places fnName rest := by
  subst he
  have hmatch : (startPattern fnName).MatchesAt (header ++ '\x7b' :: more) :=
    ⟨header ++ ['\x7b'], ⟨more, by simp⟩, denotes_startPattern.mpr ⟨header, hheader, rfl⟩⟩
  have hends := (Regex.matchesAt_iff (startPattern_anchorFree fnName) 0).mp hmatch
  refine List.mem_filter.mpr ⟨List.mem_range.mpr ?_, ?_⟩
  · rw [List.length_append]
    omega
  · rw [List.drop_left]
    simpa using hends

theorem only_of_places {fnName before rest : Str}
    (h : places fnName (before ++ rest) = [before.length]) (other header more : Str)
    (hheader : IsHeader fnName header) (he : other ++ (header ++ '\x7b' :: more) = before ++ rest) :
    other = before := by
  have hm := mem_places hheader he
  rw [h, List.mem_singleton] at hm
  exact (List.append_inj he hm).1

theorem first_of_places {fnName before rest : Str} {later : List Nat}
    (h : places fnName (before ++ rest) = before.length :: later) (other header more : Str)
    (hheader : IsHeader fnName header) (he : other ++ (header ++ '\x7b' :: more) = before ++ rest) :
    before.length ≤ other.length := by
  have hsorted : (places fnName (before ++ rest)).Pairwise (· < ·) :=
    List.pairwise_lt_range.filter _
  have hm := mem_places hheader he
  rw [h] at hm hsorted
  rcases List.mem_cons.mp hm with hsame | hlater
  · exact hsame.ge
  · exact ((List.pairwise_cons.mp hsorted).1 _ hlater).le

def plainHead : Str := str "fn=function(a)"

theorem plainHead_assignment : IsAssignment (str "fn") plainHead :=
  ⟨[], [], str "(a)", rfl, by simp, by simp, [], ['a'], [], rfl, by simp, by decide, by simp⟩

def plainBody : Str := str "\x7breturn a\x7d"

theorem plainBody_block : IsBlock unquoted plainBody :=
  ⟨str "return a", .of_ordinary (by simp [str, unquoted, IsQuote]), rfl⟩

theorem extractFunctionBody_whole_plain :
    extractFunctionBody (str "x;" ++ (plainHead ++ (plainBody ++ str ";"))) (str "fn") =
      some (plainHead ++ plainBody) :=
  (extractFunctionBody_whole_iff (.inl plainHead_assignment) plainBody_block
    (only_of_places (by decide))).mpr (by decide)

def destructuringHead : Str := str "fn=function(\x7ba\x7d)"

theorem destructuringHead_header : IsHeader (str "fn") destructuringHead :=
  .inl ⟨[], [], str "(\x7ba\x7d)", rfl, by simp, by simp, [], str "\x7ba\x7d", [], rfl,
    by simp, by decide, by simp⟩

-- Only `fn=function({a}` is returned of `fn=function({a}){return a}`.
theorem extractFunctionBody_cuts_destructuring :
    IsHeader (str "fn") destructuringHead ∧ IsBlock unquoted plainBody ∧
      (∀ other header more, IsHeader (str "fn") header →
        other ++ (header ++ '\x7b' :: more) = [] ++ (destructuringHead ++ (plainBody ++ [])) →
          other = []) ∧
      extractFunctionBody ([] ++ (destructuringHead ++ (plainBody ++ []))) (str "fn") ≠
        some (destructuringHead ++ plainBody) :=
  ⟨destructuringHead_header, plainBody_block, only_of_places (by decide), by decide⟩

-- A place where the name itself is defined: by a declaration, or by an assignment that
-- does not follow an identifier character.
def DefinesAt (fnName before rest : Str) : Prop :=
  ∃ head more, rest = head ++ '\x7b' :: more ∧
    (IsDeclaration fnName head ∨
      IsAssignment fnName head ∧ ∀ c, before.getLast? = some c →
        NParamDecipherer.isNameChar c = false)

def StandsAtDefinition (js fnName text : Str) : Prop :=
  ∃ before after, js = before ++ (text ++ after) ∧ DefinesAt fnName before (text ++ after)

-- The source is right if the leftmost place where the pattern matches defines the name
-- itself, and only then if the source stands at that place alone.
theorem extractFunctionBody_named (js fnName : Str) :
    ((∀ before rest, js = before ++ rest → (startPattern fnName).Leftmost before rest →
        DefinesAt fnName before rest ∨ ∀ text, ¬SourceAt rest text) →
      ∀ text, extractFunctionBody js fnName = some text → StandsAtDefinition js fnName text) ∧
    ∀ before rest text, js = before ++ rest → (startPattern fnName).Leftmost before rest →
      SourceAt rest text → (∀ other more, js = other ++ (text ++ more) → other = before) →
        extractFunctionBody js fnName = some text ∧
          (StandsAtDefinition js fnName text ↔ DefinesAt fnName before rest) := by
  constructor
  · intro h text htext
    obtain ⟨before, rest, hjs, hleft, hsource⟩ := extractFunctionBody_iff.mp htext
    have hdefines := (h before rest hjs hleft).resolve_right fun hnone => hnone text hsource
    obtain ⟨-, -, after, -, -, -, rfl⟩ := hsource
    exact ⟨before, after, hjs, hdefines⟩
  · intro before rest text hjs hleft hsource honly
    refine ⟨extractFunctionBody_iff.mpr ⟨before, rest, hjs, hleft, hsource⟩, ?_⟩
    obtain ⟨-, -, after, -, -, -, rfl⟩ := hsource
    constructor
    · rintro ⟨other, more, hother, hdefines⟩
      obtain rfl := honly other more hother
      rwa [List.append_cancel_left (hother.symm.trans hjs)] at hdefines
    · exact fun hdefines => ⟨before, after, hjs, hdefines⟩

-- A text that stands at one place only.
theorem place_of_only {js source before after : Str} {place : Nat} (hne : source ≠ [])
    (honly : ∀ first ∈ List.range js.length,
      (js.drop first).take source.length = source → first = place)
    (h : js = before ++ (source ++ after)) : before = js.take place := by
  have hlength : before.length < js.length := by
    rw [h, List.length_append, List.length_append]
    exact Nat.lt_add_of_pos_right (Nat.add_pos_left (List.length_pos_of_ne_nil hne) _)
  have hfirst :=
    honly before.length (List.mem_range.mpr hlength) (by rw [h, List.drop_left, List.take_left])
  rw [← hfirst, h, List.take_left]

-- After the function `fn` comes one whose name ends in this name.
def plainAfter : Str := str ";xfn=function(a)\x7breturn b\x7d"

def plainJs : Str := str "x;" ++ (plainHead ++ (plainBody ++ plainAfter))

theorem plainSource_only : ∀ first ∈ List.range plainJs.length,
    (plainJs.drop first).take (plainHead ++ plainBody).length = plainHead ++ plainBody →
      first = 2 := by decide +kernel

theorem extractFunctionBody_named_plain :
    extractFunctionBody plainJs (str "fn") = some (plainHead ++ plainBody) ∧
      StandsAtDefinition plainJs (str "fn") (plainHead ++ plainBody) := by
  have hplaces : places (str "fn") plainJs = (str "x;").length :: [28] := by decide +kernel
  have hleft := leftmost_of_first (.inl plainHead_assignment) plainBody_block
    (first_of_places hplaces)
  have hdefines : DefinesAt (str "fn") (str "x;") (plainHead ++ (plainBody ++ plainAfter)) := by
    refine ⟨plainHead, str "return a\x7d" ++ plainAfter, rfl,
      .inr ⟨plainHead_assignment, fun c hc => ?_⟩⟩
    obtain rfl : ';' = c := Option.some.inj hc
    decide
  have hsource : SourceAt (plainHead ++ (plainBody ++ plainAfter)) (plainHead ++ plainBody) := by
    obtain ⟨inner, hinner, hblock⟩ := plainBody_block
    exact ⟨plainHead, plainBody, plainAfter, by decide,
      ⟨inner, hinner.mono unquoted_le_backslashRule, hblock⟩, rfl, (List.append_assoc ..).symm⟩
  obtain ⟨henough, hexact⟩ := extractFunctionBody_named plainJs (str "fn")
  obtain ⟨htext, -⟩ := hexact _ _ _ rfl hleft hsource fun other more he =>
    (place_of_only (by decide) plainSource_only he).trans (by decide)
  refine ⟨htext, henough (fun before rest hjs hother => .inl ?_) _ htext⟩
  obtain ⟨rfl, rfl⟩ := hleft.unique hother hjs.symm
  exact hdefines

def suffixedJs : Str := str "xfn=function(a)\x7breturn 1\x7d;fn=function(a)\x7breturn 2\x7d"

def suffixedSource : Str := str "fn=function(a)\x7breturn 1\x7d"

theorem suffixedSource_only : ∀ first ∈ List.range suffixedJs.length,
    (suffixedJs.drop first).take suffixedSource.length = suffixedSource → first = 1 := by decide

-- The function `xfn` is returned, although `fn` is defined as well.
theorem extractFunctionBody_takes_suffixed :
    extractFunctionBody suffixedJs (str "fn") = some suffixedSource ∧
      ¬StandsAtDefinition suffixedJs (str "fn") suffixedSource ∧
      DefinesAt (str "fn") (suffixedJs.take 26) (suffixedJs.drop 26) := by
  refine ⟨by decide, ?_, ?_⟩
  · rintro ⟨before, after, hjs, head, more, he, hdeclares | ⟨-, hprevious⟩⟩
    · obtain ⟨gap, params, rfl, -⟩ := hdeclares
      have hsecond := congrArg (fun text => text[1]?) he
      simp [suffixedSource, str] at hsecond
    · have hplace := place_of_only (by decide) suffixedSource_only hjs
      rw [hplace] at hprevious
      exact absurd (hprevious 'x' (by decide)) (by decide)
  · refine ⟨plainHead, str "return 2\x7d", by decide, .inr ⟨plainHead_assignment, fun c hc => ?_⟩⟩
    have hlast : (suffixedJs.take 26).getLast? = some ';' := by decide
    rw [← Option.some.inj (hlast.symm.trans hc)]
    decide

end JsFunctionExtractor

end Ytdlpdroid
