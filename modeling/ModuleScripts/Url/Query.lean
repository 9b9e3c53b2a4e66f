import ModuleScripts.Text.Basic

/-!
# Query parameters of a URL

A URL is its address, an optional query after the first question mark, and an
optional fragment from the first number sign on. A parameter is added at the
end of the query and before the fragment.
-/

namespace ModuleScripts.Url

/-- The part of a URL before its fragment. -/
def beforeFragment (url : Text) : Text := url.takeWhile (· ≠ '#')

/-- The fragment of a URL with its number sign, empty without one. -/
def fragmentPart (url : Text) : Text := url.dropWhile (· ≠ '#')

/-- What stands before the fragment and the fragment make up the URL. -/
theorem beforeFragment_append_fragmentPart (url : Text) :
    beforeFragment url ++ fragmentPart url = url :=
  List.takeWhile_append_dropWhile

/-- What stands between an address and a further parameter: the mark that
opens a query, nothing where the query is open already, else an ampersand. -/
def querySeparator (address : Text) : Text :=
  if !address.contains '?' then ['?']
  else if address.getLast? = some '?' || address.getLast? = some '&' then []
  else ['&']

/-- The URL with one more query parameter. An empty parameter adds nothing. -/
def appendQuery (url param : Text) : Text :=
  if param.isEmpty then url
  else
    beforeFragment url ++ querySeparator (beforeFragment url) ++ param ++ fragmentPart url

/-- The separator is a question mark, an ampersand, or nothing. -/
theorem querySeparator_cases (address : Text) :
    querySeparator address = ['?'] ∨ querySeparator address = [] ∨
      querySeparator address = ['&'] := by
  unfold querySeparator
  split
  · exact .inl rfl
  · split
    · exact .inr (.inl rfl)
    · exact .inr (.inr rfl)

/-- A character of the result comes from the URL or the parameter, or it separates
them. -/
theorem mem_appendQuery {url param : Text} {c : Char} (h : c ∈ appendQuery url param) :
    c ∈ url ∨ c ∈ param ∨ c = '?' ∨ c = '&' := by
  unfold appendQuery at h
  split at h
  · exact .inl h
  · have hurl : ∀ part, part = beforeFragment url ∨ part = fragmentPart url → c ∈ part → c ∈ url := by
      rintro part hpart hc
      rw [← beforeFragment_append_fragmentPart url, List.mem_append]
      rcases hpart with rfl | rfl
      · exact .inl hc
      · exact .inr hc
    rw [List.mem_append, List.mem_append, List.mem_append] at h
    rcases h with ((h | h) | h) | h
    · exact .inl (hurl _ (.inl rfl) h)
    · rcases querySeparator_cases (beforeFragment url) with hs | hs | hs <;> rw [hs] at h
      · exact .inr (.inr (.inl (List.mem_singleton.1 h)))
      · cases h
      · exact .inr (.inr (.inr (List.mem_singleton.1 h)))
    · exact .inr (.inl h)
    · exact .inl (hurl _ (.inr rfl) h)

end ModuleScripts.Url
