/-!
# Fresh names

A name that is taken gets a number behind it, starting from two. Of the candidates `name`, `name2`,
`name3`, … the first that is not taken is the fresh one; among one more candidates than there are taken
names there always is one.
-/

namespace RouteManifest

namespace Text

/-- The `k`-th candidate for a name, counted from zero. -/
def numbered (name : String) (k : Nat) : String := if k = 0 then name else name ++ toString (k + 1)

/-- The first candidate that is not taken. -/
def fresh (taken : List String) (name : String) : String :=
  (((List.range (taken.length + 1)).map (numbered name)).find? fun c => !taken.contains c).getD name

end Text

end RouteManifest
