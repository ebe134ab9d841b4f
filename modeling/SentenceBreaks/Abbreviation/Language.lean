import SentenceBreaks.Abbreviation.Profile

/-! The profiles that come with the library. A language goes by its code or by its name, in letters
of either case. -/

namespace SentenceBreaks.Language

def titles : List String :=
  ["Mr.", "Mrs.", "Ms.", "Dr.", "Prof.", "Rev.", "Hon.", "Sr.", "Jr.", "Capt.", "Col.", "Gen.",
   "Lt.", "Maj.", "Sgt.", "Pvt.", "Cmdr.", "Gov.", "Sen.", "Rep.", "Pres.", "Supt.", "Mgr.",
   "Messrs.", "Mmes.", "St."]

def degrees : List String :=
  ["Ph.D.", "M.D.", "B.A.", "M.A.", "B.S.", "M.S.", "J.D.", "D.D.S.", "LL.B."]

def places : List String :=
  ["U.S.", "U.S.A.", "U.K.", "N.Y.", "L.A.", "D.C.", "E.U.", "U.N.", "Inc.", "Ltd.", "Co.",
   "Corp.", "Dept.", "Univ.", "Assn.", "Bros.", "Ave.", "Blvd.", "Rd.", "Mt.", "Ft."]

def calendar : List String :=
  ["Jan.", "Feb.", "Mar.", "Apr.", "Jun.", "Jul.", "Aug.", "Sep.", "Sept.", "Oct.", "Nov.", "Dec.",
   "Mon.", "Tue.", "Wed.", "Thu.", "Fri.", "Sat.", "Sun."]

def general : List String :=
  ["e.g.", "E.g.", "i.e.", "I.e.", "etc.", "Etc.", "vs.", "Vs.", "cf.", "viz.", "approx.",
   "Approx.", "est.", "Est.", "No.", "Nos.", "Vol.", "Fig.", "pp.", "Ch.", "Sec.", "Art.", "Ed.",
   "Eds.", "ca.", "misc.", "Misc."]

def times : List String :=
  ["a.m.", "p.m.", "A.M.", "P.M.", "A.D.", "B.C."]

def english : Profile where
  code := "en".toList
  name := "English".toList
  separator := '.'
  suppressAfter :=
    (titles ++ degrees ++ places ++ calendar ++ general ++ times).map String.toList

def profiles : List Profile := [english]

/-- The codes of all profiles, in ascending order. -/
def codes : List (List Char) := profiles.map (·.code)

/-- Lowers the letters from A to Z, as language codes have no others. -/
def lowered (code : List Char) : List Char := code.map Char.toLower

def codeOf (name : List Char) : List Char :=
  if name = "english".toList then "en".toList else name

def profile? (name : List Char) : Option Profile :=
  profiles.find? fun profile => profile.code = codeOf (lowered name)

end SentenceBreaks.Language
