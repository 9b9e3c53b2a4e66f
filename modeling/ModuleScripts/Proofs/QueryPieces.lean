import ModuleScripts.Proofs.Rereading
import ModuleScripts.Url.Query

/-!
# The parameters of a query

A query is read as its pieces between ampersands. A parameter that is added to a
URL makes pieces of its own behind those there were, and nothing else of the URL
changes. There is one exception: a query that ends with a question mark is taken
for one that was only just opened, so what is added runs into its last piece.
-/

namespace ModuleScripts

namespace Text

/-- There is one piece more than there are separators. -/
theorem length_splitOn (separator : Char) (t : Text) :
    (t.splitOn separator).length = t.count separator + 1 := by
  induction t with
  | nil => rfl
  | cons c r ih =>
    by_cases hc : c = separator
    · rw [hc, splitOn_cons_self, List.length_cons, ih, List.count_cons_self]
    · obtain ⟨piece, pieces, hs⟩ := List.exists_cons_of_ne_nil (List.splitOn_ne_nil separator r)
      rw [splitOn_cons_of_ne hc hs, List.count_cons_of_ne hc, ← ih, hs]
      rfl

/-- The last piece is empty only if the text is, or ends with a separator. -/
theorem getLast?_of_getLast?_splitOn {separator : Char} {t : Text}
    (h : (t.splitOn separator).getLast? = some []) : t = [] ∨ t.getLast? = some separator := by
  induction t with
  | nil => exact .inl rfl
  | cons c r ih =>
    right
    obtain ⟨piece, pieces, hs⟩ := List.exists_cons_of_ne_nil (List.splitOn_ne_nil separator r)
    rw [List.getLast?_cons]
    by_cases hc : c = separator
    · rw [hc, splitOn_cons_self, hs, List.getLast?_cons_cons, ← hs] at h
      rcases ih h with rfl | hlast
      · rw [hc]
        rfl
      · rw [hlast]
        rfl
    · rw [splitOn_cons_of_ne hc hs] at h
      rw [hs] at ih
      cases pieces with
      | nil => cases h
      | cons other pieces =>
        rcases ih h with rfl | hlast
        · cases hs
        · rw [hlast]
          rfl

end Text

namespace Url

/-- The URL up to its query. -/
def path (url : Text) : Text := (beforeFragment url).takeWhile (· ≠ '?')

/-- The query of a URL: what follows its first question mark up to the fragment,
empty without one. -/
def query (url : Text) : Text := ((beforeFragment url).dropWhile (· ≠ '?')).tail

/-- The parameters of a query: its pieces between ampersands, without an empty one
at the end. -/
def parameters (query : Text) : List Text :=
  if (List.splitOn '&' query).getLast? = some [] then (List.splitOn '&' query).dropLast
  else List.splitOn '&' query

section Parts

variable {address url param q : Text}

/-- An ampersand at the end of a query separates it from nothing. -/
theorem parameters_append_ampersand (q : Text) : parameters (q ++ ['&']) = List.splitOn '&' q := by
  have hsplit : List.splitOn '&' (q ++ ['&']) = List.splitOn '&' q ++ [[]] :=
    List.splitOn_append_cons_self q []
  rw [parameters, hsplit, if_pos List.getLast?_concat, List.dropLast_concat]

/-- Every piece counts if the last character is another. -/
theorem parameters_of_getLast? (hq : q ≠ []) (hlast : q.getLast? ≠ some '&') :
    parameters q = List.splitOn '&' q := by
  rw [parameters, if_neg]
  intro h
  rcases Text.getLast?_of_getLast?_splitOn h with hnil | hand
  · exact hq hnil
  · exact hlast hand

/-- What stands between a query and a further parameter. -/
def joint (query : Text) : Text :=
  if query = [] ∨ query.getLast? = some '?' ∨ query.getLast? = some '&' then [] else ['&']

/-- No number sign stands before the fragment. -/
theorem numberSign_notMem_beforeFragment (url : Text) : '#' ∉ beforeFragment url := fun h => by
  simpa using List.mem_takeWhile_imp h

/-- A separator is no number sign. -/
theorem numberSign_notMem_querySeparator (address : Text) : '#' ∉ querySeparator address := by
  rcases querySeparator_cases address with h | h | h <;> rw [h] <;> decide

/-- Behind an address without a fragment the fragment is what follows. -/
theorem fragment_append (h : '#' ∉ address) (url : Text) :
    beforeFragment (address ++ fragmentPart url) = address ∧
      fragmentPart (address ++ fragmentPart url) = fragmentPart url := by
  have hpos : ∀ c ∈ address, decide (c ≠ '#') = true := fun c hc =>
    decide_eq_true fun he => h (he ▸ hc)
  constructor
  · have hnone : (fragmentPart url).takeWhile (· ≠ '#') = [] :=
      List.takeWhile_eq_nil_iff.2 (List.dropWhile_get_zero_not _ url)
    rw [beforeFragment, List.takeWhile_append_of_pos hpos, hnone, List.append_nil]
  · rw [fragmentPart, List.dropWhile_append_of_pos hpos, fragmentPart]
    exact List.dropWhile_idempotent _ url

/-- An added parameter stands at the end of the address. -/
theorem fragment_appendQuery (hparam : param ≠ []) (hmark : '#' ∉ param) (url : Text) :
    beforeFragment (appendQuery url param) =
        beforeFragment url ++ (querySeparator (beforeFragment url) ++ param) ∧
      fragmentPart (appendQuery url param) = fragmentPart url := by
  have hnone : '#' ∉ beforeFragment url ++ (querySeparator (beforeFragment url) ++ param) := by
    rw [List.mem_append, List.mem_append, not_or, not_or]
    exact ⟨numberSign_notMem_beforeFragment url, numberSign_notMem_querySeparator _, hmark⟩
  have hurl : appendQuery url param =
      beforeFragment url ++ (querySeparator (beforeFragment url) ++ param) ++ fragmentPart url := by
    rw [appendQuery, if_neg (by simpa using hparam), List.append_assoc (beforeFragment url)]
  rw [hurl]
  exact fragment_append hnone url

/-- The first question mark parts the path from the query. -/
theorem takeWhile_dropWhile_open {p : Text} (hp : '?' ∉ p) (q : Text) :
    (p ++ '?' :: q).takeWhile (· ≠ '?') = p ∧ (p ++ '?' :: q).dropWhile (· ≠ '?') = '?' :: q := by
  have hpos : ∀ c ∈ p, decide (c ≠ '?') = true := fun c hc =>
    decide_eq_true fun he => hp (he ▸ hc)
  rw [List.takeWhile_append_of_pos hpos, List.dropWhile_append_of_pos hpos]
  exact ⟨List.append_nil p, rfl⟩

/-- Behind a question mark the separator is decided by what follows it. -/
theorem querySeparator_open (p q : Text) : querySeparator (p ++ '?' :: q) = joint q := by
  have hlast : (p ++ '?' :: q).getLast? = some (q.getLast?.getD '?') := by
    rw [List.getLast?_append, List.getLast?_cons, Option.some_or]
  rw [querySeparator, joint, hlast]
  cases q using List.reverseRecOn with
  | nil => simp
  | append_singleton start c => simp

/-- The path stays, and the query goes on with the parameter. -/
theorem path_query_appendQuery (hparam : param ≠ []) (hmark : '#' ∉ param) (url : Text) :
    path (appendQuery url param) = path url ∧
      query (appendQuery url param) = query url ++ (joint (query url) ++ param) := by
  have hbefore := (fragment_appendQuery hparam hmark url).1
  rw [path, path, query, query, hbefore]
  by_cases hopen : '?' ∈ beforeFragment url
  · obtain ⟨p, q, hsplit, hp⟩ := List.eq_append_cons_of_mem hopen
    have hbefore := takeWhile_dropWhile_open hp q
    have hafter := takeWhile_dropWhile_open hp (q ++ (joint q ++ param))
    rw [hsplit, querySeparator_open, List.append_assoc, List.cons_append, hafter.1, hafter.2,
      hbefore.1, hbefore.2]
    exact ⟨rfl, rfl⟩
  · have hpos : ∀ c ∈ beforeFragment url, decide (c ≠ '?') = true := fun c hc =>
      decide_eq_true fun he => hopen (he ▸ hc)
    have hseparator : querySeparator (beforeFragment url) = ['?'] := by
      rw [querySeparator, if_pos (by simpa using hopen)]
    have hafter := takeWhile_dropWhile_open hopen param
    rw [hseparator, List.singleton_append, hafter.1, hafter.2, List.takeWhile_eq_self_iff.2 hpos,
      List.dropWhile_eq_nil_iff.2 hpos]
    exact ⟨rfl, rfl⟩

/-- The pieces of the parameter stand behind those of the query unless the query
ends with a question mark. -/
theorem splitOn_joint (q param : Text) :
    List.splitOn '&' (q ++ (joint q ++ param)) = parameters q ++ List.splitOn '&' param ↔
      q.getLast? ≠ some '?' := by
  by_cases hmark : q.getLast? = some '?'
  · -- the last piece of the query runs into the first of the parameter
    have hq : q ≠ [] := fun he => by rw [he] at hmark; cases hmark
    have hpieces := parameters_of_getLast? hq (by rw [hmark]; decide)
    refine ⟨fun h => ?_, fun h => absurd hmark h⟩
    have hlength := congrArg List.length h
    rw [joint, if_pos (.inr (.inl hmark)), hpieces, List.nil_append, List.length_append,
      Text.length_splitOn, Text.length_splitOn, Text.length_splitOn, List.count_append] at hlength
    omega
  · refine ⟨fun _ => hmark, fun _ => ?_⟩
    by_cases hq : q = []
    · rw [hq]
      rfl
    · by_cases hand : q.getLast? = some '&'
      · obtain ⟨start, rfl⟩ := List.getLast?_eq_some_iff.1 hand
        rw [joint, if_pos (.inr (.inr hand)), parameters_append_ampersand, List.nil_append,
          List.append_assoc]
        exact List.splitOn_append_cons_self start param
      · rw [joint, if_neg (by simp [hq, hmark, hand]), parameters_of_getLast? hq hand]
        exact List.splitOn_append_cons_self q param

end Parts

/-- A parameter that is added to a URL leaves its fragment and its path as they
are, and its pieces stand behind the parameters of the query unless the query
ends with a question mark, which nothing then parts from the parameter. -/
theorem appendQuery_parameters {url param : Text} (hparam : param ≠ []) (hmark : '#' ∉ param) :
    fragmentPart (appendQuery url param) = fragmentPart url ∧
      path (appendQuery url param) = path url ∧
      (List.splitOn '&' (query (appendQuery url param)) =
        parameters (query url) ++ List.splitOn '&' param ↔ (query url).getLast? ≠ some '?') ∧
      ((query url).getLast? = some '?' → query (appendQuery url param) = query url ++ param) := by
  obtain ⟨hpath, hquery⟩ := path_query_appendQuery hparam hmark url
  refine ⟨(fragment_appendQuery hparam hmark url).2, hpath, ?_, fun hlast => ?_⟩
  · rw [hquery]
    exact splitOn_joint (query url) param
  · rw [hquery, joint, if_pos (.inr (.inl hlast)), List.nil_append]

/-- A URL with an empty piece at the end of its query and a fragment, and a
parameter of two pieces. -/
theorem appendQuery_parameters_fragment :
    "v=2&w".toList ≠ [] ∧ '#' ∉ "v=2&w".toList ∧
      fragmentPart (appendQuery "a.js?x=1?y&#t?".toList "v=2&w".toList) = "#t?".toList ∧
      path (appendQuery "a.js?x=1?y&#t?".toList "v=2&w".toList) = "a.js".toList ∧
      List.splitOn '&' (query (appendQuery "a.js?x=1?y&#t?".toList "v=2&w".toList)) =
        ["x=1?y".toList, "v=2".toList, ['w']] := by
  have hparam : "v=2&w".toList ≠ [] := by decide
  have hmark : '#' ∉ "v=2&w".toList := by decide
  obtain ⟨hfragment, hpath, hpieces⟩ :=
    @appendQuery_parameters "a.js?x=1?y&#t?".toList _ hparam hmark
  exact ⟨hparam, hmark, hfragment, hpath, hpieces.1.2 (by decide)⟩

/-- A value that ends with a question mark is altered: it runs into the parameter. -/
theorem appendQuery_parameters_questionMark :
    appendQuery "a.js?x=1?".toList "v=2".toList = "a.js?x=1?v=2".toList ∧
      parameters (query "a.js?x=1?".toList) = ["x=1?".toList] ∧
      List.splitOn '&' (query (appendQuery "a.js?x=1?".toList "v=2".toList)) ≠
        parameters (query "a.js?x=1?".toList) ++ List.splitOn '&' "v=2".toList := by
  decide

end Url

end ModuleScripts
