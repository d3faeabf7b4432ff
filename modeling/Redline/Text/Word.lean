import Redline.Text.Printable

/-!
# Word characters

Letters and numbers of every script: all that is printed, apart from marks and signs. A word
character is one of these or the underscore.
-/

namespace Redline

/-- The runs of marks and signs that are printed. -/
def signs : List Nat :=
  [32,16,10,7,26,6,26,4,34,9,1,2,1,4,2,1,1,3,2,1,3,1,23,1,31,1,458,4,12,14,5,7,1,1,1,129,5,1,8,1,5,
    2,1,1,110,1,139,8,208,6,41,2,2,3,1,55,43,2,17,22,1,3,43,21,10,4,2,1,99,1,1,7,1,7,2,7,15,2,1,14,
    3,1,30,27,91,11,58,9,2,4,3,3,22,4,1,9,1,3,1,5,2,15,26,3,2,1,41,1,15,8,42,24,1,33,54,3,1,18,1,7,
    10,4,10,1,16,3,56,1,1,7,2,2,2,3,9,1,10,2,14,2,6,2,1,2,2,3,56,1,1,5,4,2,2,3,3,1,30,2,3,2,10,3,56,
    1,1,8,1,3,1,3,20,2,12,2,8,6,1,3,56,1,1,7,2,2,2,3,7,3,10,2,12,1,17,1,59,5,3,3,1,4,9,1,27,8,5,5,
    55,1,1,7,1,3,1,4,7,2,11,2,19,1,7,1,1,4,55,1,1,7,1,3,1,4,7,2,11,2,28,4,55,2,1,7,1,3,1,4,1,1,7,1,
    10,2,21,1,7,3,70,1,4,6,1,1,1,8,18,3,60,1,2,7,4,1,7,9,10,2,85,1,2,9,11,6,51,31,20,12,49,23,5,11,
    1,36,1,15,1,13,80,20,11,6,6,4,4,3,1,3,2,7,3,4,13,12,1,1,10,6,91,1,609,12,39,10,102,1,620,2,44,2,
    78,3,36,4,28,5,27,2,30,2,64,35,1,4,1,1,34,14,1,1,117,2,34,1,118,12,4,12,4,1,3,2,152,34,23,5,2,2,
    53,10,1,29,2,1,32,7,1,6,2,31,49,5,47,17,21,37,1,3,30,13,56,14,8,4,36,20,3,5,62,2,64,8,8,25,4,1,
    6,1,2,3,198,64,445,1,1,3,11,3,13,3,13,3,13,2,17,24,8,47,27,5,11,5,17,33,15,33,15,2,1,4,1,2,10,1,
    1,3,5,6,1,1,1,1,1,1,4,1,11,2,4,5,5,4,1,1,58,2,4,663,25,11,81,78,22,630,30,992,2,32,1,105,229,6,
    4,3,7,4,1,2,112,1,14,1,96,79,1,46,34,26,1,89,12,214,26,12,5,4,3,25,9,7,5,2,5,3,89,4,3,1,90,1,
    148,2,4,10,32,36,28,31,11,30,8,1,15,32,10,39,15,320,6592,64,22160,55,55,2,269,3,95,16,31,2,80,8,
    8,23,9,2,103,2,119,1,3,1,4,1,23,10,9,4,58,4,8,2,50,18,8,2,16,18,6,3,1,1,2,1,38,10,23,13,11,1,32,
    4,47,27,16,2,5,1,67,14,12,1,8,2,14,4,23,3,1,3,50,1,1,3,2,2,5,2,1,1,28,2,11,7,3,2,100,1,14,2,119,
    11,20272,1,10,1,136,17,379,18,127,1,44,30,6,51,1,19,1,4,149,15,10,7,26,6,26,11,122,7,1,7,13,2,
    258,3,52,9,57,17,2,3,1,13,3,1,47,46,226,1,149,5,36,1,48,1,414,1,743,1,31,2,166,1,31,1,193,3,1,2,
    5,4,40,3,4,1,16,9,38,1,72,1,28,2,9,7,66,7,89,4,391,4,387,3,152,11,4,5,40,8,118,3,53,22,34,1,2,2,
    10,4,45,13,1,5,61,3,36,14,11,4,1,2,44,3,10,3,48,14,4,11,11,1,1,3,76,19,106,1,53,12,21,4,55,2,1,
    7,2,2,2,3,9,1,10,2,2,7,3,5,192,18,4,5,10,2,1,2,81,20,2,1,232,7,2,32,4,2,82,20,28,13,62,13,1,1,
    99,15,16,4,236,16,244,6,1,2,2,4,1,1,1,5,138,7,2,7,1,1,1,1,28,10,40,7,1,13,9,11,46,19,1,5,396,8,
    1,8,1,5,42,2,32,22,1,14,122,6,3,1,1,2,1,7,1,1,66,5,1,2,1,5,347,6,220,29,13,1,1136,5,2940,2,
    14971,2,128,6,58,16,4,2,849,4,180,1,1,55,7,4,79,1,1,1,11,2,19626,4,4704,46,2,23,9,116,60,246,10,
    39,2,74,8,112,21,70,186,87,874,1,25,1,31,1,25,1,31,1,25,1,31,1,25,1,31,1,25,1,60,652,15,5,1,15,
    1360,7,1,17,2,7,1,2,1,5,261,7,24,1,350,1,61,4,15,1,1488,7,109,7,19,2,844,1,3,1,125,1,449,2,270,
    44,4,100,12,15,2,15,1,15,1,37,23,161,56,29,13,44,4,9,7,2,14,6,154,984,5,16,3,13,3,116,12,89,7,
    12,4,1,15,12,4,56,8,10,6,40,8,30,2,2,78,340,12,14,2,5,3,5,3,7,9,29,3,11,5,6,10,10,6,8,8,7,9,147,
    1,55,787765,240]

/-- A letter or a number of any script. -/
def isAlnum (c : Char) : Bool :=
  isPrintable c && !inRuns signs c.toNat

/-- A letter, a number or the underscore. -/
def isWord (c : Char) : Bool :=
  c == '_' || isAlnum c

end Redline
