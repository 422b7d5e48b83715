import ActionCatalogue.Text.Ascii

/-!
Names in the three casings of the catalogue: app names (`GoogleSheets`), keys (`create_folder`) and
labels (`Page Size`). All three are made of the same words. A text is cut into words in three
passes: where the case rises, where an acronym ends, and at everything that is no ASCII letter or
digit.
-/

namespace ActionCatalogue.Naming

open Ascii

/-- Puts a space between a lower-case letter or digit and the upper-case letter after it. -/
def breakRises : List Char → List Char
  | a :: b :: rest =>
    if (isLower a || isDigit a) && isUpper b then a :: ' ' :: breakRises (b :: rest)
    else a :: breakRises (b :: rest)
  | cs => cs

/-- Puts a space before the last capital of a run that a lower-case letter follows. -/
def breakAcronyms : List Char → List Char
  | a :: b :: c :: rest =>
    if isUpper a && isUpper b && isLower c then a :: ' ' :: breakAcronyms (b :: c :: rest)
    else a :: breakAcronyms (b :: c :: rest)
  | cs => cs

/-- The maximal runs of word characters; `run` holds the one being read, last character first. -/
def runsFrom (run : List Char) : List Char → List (List Char)
  | [] => if run.isEmpty then [] else [run.reverse]
  | c :: rest =>
    if isAlphanumeric c then runsFrom (c :: run) rest
    else if run.isEmpty then runsFrom [] rest
    else run.reverse :: runsFrom [] rest

def wordsOf (cs : List Char) : List (List Char) :=
  runsFrom [] (breakAcronyms (breakRises cs))

def words (s : String) : List String :=
  (wordsOf s.toList).map String.ofList

/-- A word in lower case. Words are ASCII, so the ASCII case map is the whole one. -/
def lowerWord (w : List Char) : List Char :=
  w.map Char.toLower

def titleWord : List Char → List Char
  | [] => []
  | c :: rest => c.toUpper :: lowerWord rest

/-- The app name of a plugin identifier: `google-sheets` becomes `GoogleSheets`. -/
def appName (s : String) : String :=
  String.ofList ((wordsOf s.toList).map titleWord).flatten

/-- The key of an action or option: `createNewFolder` becomes `create_new_folder`. -/
def key (s : String) : String :=
  String.ofList (['_'].intercalate ((wordsOf s.toList).map lowerWord))

/-- The label shown for a name: `page_size` becomes `Page Size`. -/
def label (s : String) : String :=
  String.ofList ([' '].intercalate ((wordsOf s.toList).map titleWord))

end ActionCatalogue.Naming
