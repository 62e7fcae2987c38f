/-! # Columns

Texts padded or cut to a width, counted in characters. -/
namespace SearchQuery.Text

/-- Pads on the right; a longer text stays as it is. -/
def padRight (width : Nat) (s : String) : String :=
  s ++ String.ofList (List.replicate (width - s.length) ' ')

/-- Pads on the left; a longer text stays as it is. -/
def padLeft (width : Nat) (s : String) : String :=
  String.ofList (List.replicate (width - s.length) ' ') ++ s

/-- The first characters of a text. -/
def cut (width : Nat) (s : String) : String := String.ofList (s.toList.take width)

end SearchQuery.Text
