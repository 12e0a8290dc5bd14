import Ytdlpdroid.Text.Basic

namespace Ytdlpdroid.Text

def isSeparator (c : Char) : Bool := c == '?' || c == '&'

-- The parameters after the first one, each behind its separator.
def moreParams (params : List Str) : Str := params.flatMap ('&' :: ·)

-- The parameters behind the question mark of a URL.
def query : List Str → Str
  | [] => []
  | first :: rest => '?' :: first ++ moreParams rest

def SeparatorFree (text : Str) : Prop := ∀ c ∈ text, ¬isSeparator c

theorem SeparatorFree.append {left right : Str} (hleft : SeparatorFree left)
    (hright : SeparatorFree right) :
    SeparatorFree (left ++ right) := fun c hm => (List.mem_append.mp hm).elim (hleft c) (hright c)

@[simp] theorem moreParams_cons (first : Str) (rest : List Str) :
    moreParams (first :: rest) = '&' :: first ++ moreParams rest := rfl

theorem moreParams_append (left right : List Str) :
    moreParams (left ++ right) = moreParams left ++ moreParams right := List.flatMap_append

theorem query_append_cons (left : List Str) (param : Str) (right : List Str) :
    ∃ c, isSeparator c ∧ query (left ++ param :: right) =
      query left ++ c :: (param ++ moreParams right) := by
  cases left with
  | nil => exact ⟨'?', rfl, rfl⟩
  | cons first left =>
      refine ⟨'&', rfl, ?_⟩
      simp only [List.cons_append, query, moreParams_append, moreParams_cons, List.append_assoc]

theorem length_query_le (left right : List Str) :
    (query left).length ≤ (query (left ++ right)).length := by
  cases left with
  | nil => exact Nat.zero_le _
  | cons first left =>
      simp only [List.cons_append, query, moreParams_append, List.length_cons, List.length_append]
      omega

theorem mem_query {params : List Str} {c : Char} (h : c ∈ query params) :
    isSeparator c ∨ ∃ param ∈ params, c ∈ param := by
  cases params with
  | nil => cases h
  | cons first rest =>
      simp only [query, moreParams, List.mem_append, List.mem_cons, List.mem_flatMap] at h
      rcases h with (rfl | hfirst) | ⟨param, hparam, rfl | hc⟩
      · exact Or.inl rfl
      · exact Or.inr ⟨first, List.mem_cons_self, hfirst⟩
      · exact Or.inl rfl
      · exact Or.inr ⟨param, List.mem_cons_of_mem _ hparam, hc⟩

-- A separator in a text that starts with a part without any is beyond this part.
theorem SeparatorFree.split {head tail other more : Str} (h : SeparatorFree head) {c : Char}
    (hc : isSeparator c) (he : head ++ tail = other ++ c :: more) :
    ∃ inside, other = head ++ inside ∧ tail = inside ++ c :: more := by
  rcases List.append_eq_append_iff.mp he with ⟨inside, rfl, rfl⟩ | ⟨between, rfl, hrest⟩
  · exact ⟨inside, rfl, rfl⟩
  · cases between with
    | nil => exact ⟨[], by simp, by simpa using hrest.symm⟩
    | cons d between =>
        obtain ⟨rfl, -⟩ := List.cons.inj hrest
        exact absurd hc (h c (by simp))

-- After the first parameter, every separator is the one before a further parameter.
theorem moreParams_split {first : Str} {rest : List Str} (hfirst : SeparatorFree first)
    (h : ∀ param ∈ rest, SeparatorFree param) {other more : Str} {c : Char} (hc : isSeparator c)
    (he : first ++ moreParams rest = other ++ c :: more) :
    ∃ left param right, rest = left ++ param :: right ∧ other = first ++ moreParams left ∧
      more = param ++ moreParams right := by
  induction rest generalizing first other with
  | nil =>
      obtain ⟨inside, -, hinside⟩ := hfirst.split hc he
      simp [moreParams] at hinside
  | cons second rest ih =>
      obtain ⟨hsecond, hrest⟩ := List.forall_mem_cons.mp h
      obtain ⟨inside, rfl, hinside⟩ := hfirst.split hc he
      rw [moreParams_cons] at hinside
      cases inside with
      | nil =>
          obtain ⟨-, rfl⟩ := List.cons.inj hinside
          exact ⟨[], second, rest, rfl, rfl, rfl⟩
      | cons d inside =>
          obtain ⟨rfl, htail⟩ := List.cons.inj hinside
          obtain ⟨left, param, right, rfl, rfl, rfl⟩ := ih hsecond hrest htail
          exact ⟨second :: left, param, right, rfl, rfl, rfl⟩

-- Every separator of a query is the one before a parameter.
theorem query_split {params : List Str} (h : ∀ param ∈ params, SeparatorFree param)
    {other more : Str} {c : Char} (hc : isSeparator c) (he : query params = other ++ c :: more) :
    ∃ left param right, params = left ++ param :: right ∧ other = query left ∧
      more = param ++ moreParams right := by
  cases params with
  | nil => simp [query] at he
  | cons first rest =>
      obtain ⟨hfirst, hrest⟩ := List.forall_mem_cons.mp h
      cases other with
      | nil =>
          obtain ⟨-, rfl⟩ := List.cons.inj he
          exact ⟨[], first, rest, rfl, rfl, rfl⟩
      | cons d other =>
          obtain ⟨rfl, htail⟩ := List.cons.inj he
          obtain ⟨left, param, right, rfl, rfl, rfl⟩ := moreParams_split hfirst hrest hc htail
          exact ⟨first :: left, param, right, rfl, rfl, rfl⟩

end Ytdlpdroid.Text
