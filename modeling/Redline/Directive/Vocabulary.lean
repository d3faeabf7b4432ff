import Redline.Text.Basic
import Redline.Text.Case

/-!
# Names of values

The words that a directive may use for colours, headings, alignments and breaks. A word that is not
known stands for itself.
-/

namespace Redline.Vocabulary

/-- Look a word up in a list of pairs. -/
def lookup? (table : List (String × String)) (word : Text) : Option Text :=
  (table.find? (·.1.toList == word)).map (·.2.toList)

def colors : List (String × String) :=
  [("black", "#000000"), ("white", "#FFFFFF"), ("red", "#FF0000"), ("green", "#00FF00"),
    ("blue", "#0000FF"), ("yellow", "#FFFF00"), ("cyan", "#00FFFF"), ("magenta", "#FF00FF"),
    ("orange", "#FF8C00"), ("purple", "#800080"), ("pink", "#FF69B4"), ("brown", "#8B4513"),
    ("gray", "#808080"), ("grey", "#808080"), ("lightgray", "#D3D3D3"), ("darkgray", "#404040"),
    ("navy", "#000080"), ("teal", "#008080")]

def headings : List (String × String) :=
  [("t", "TITLE"), ("s", "SUBTITLE"), ("1", "HEADING_1"), ("2", "HEADING_2"), ("3", "HEADING_3"),
    ("4", "HEADING_4"), ("5", "HEADING_5"), ("6", "HEADING_6"), ("0", "NORMAL_TEXT")]

def alignments : List (String × String) :=
  [("left", "START"), ("center", "CENTER"), ("right", "END"), ("justify", "JUSTIFIED")]

def breaks : List (String × String) :=
  [("", "horizontal_rule"), ("p", "page_break"), ("c", "column_break"), ("s", "section_break")]

/-- Long names of breaks. -/
def breakNames : List (String × String) :=
  [("page", "p"), ("column", "c"), ("section", "s")]

/-- The colour that a word names, in any case. -/
def color (word : Text) : Text :=
  (lookup? colors (lower word)).getD word

/-- The paragraph style of a heading. -/
def heading (word : Text) : Text :=
  (lookup? headings word).getD word

/-- The alignment that a word names, in any case. -/
def alignment (word : Text) : Text :=
  (lookup? alignments (lower word)).getD word

/-- The kind of a break. -/
def breakKind (word : Text) : Text :=
  (lookup? breaks word).getD word

/-- The short name of a break. -/
def breakCode (word : Text) : Text :=
  (lookup? breakNames word).getD word

end Redline.Vocabulary
