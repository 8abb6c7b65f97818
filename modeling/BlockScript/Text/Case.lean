import BlockScript.Text.Escaped

/-! Upper and lower case of a text, by the full case mappings of the Unicode standard. The only
mapping that depends on its surroundings is that of the Greek capital sigma. -/

namespace BlockScript.Text

/-- A run of characters `lo`, `lo + step`, …, `hi` whose mapping adds `delta` to the code point. -/
structure CaseRun where
  lo : Nat
  hi : Nat
  step : Nat
  delta : Int

def CaseRun.map? (r : CaseRun) (c : Char) : Option Char :=
  if r.lo ≤ c.toNat ∧ c.toNat ≤ r.hi ∧ (c.toNat - r.lo) % r.step = 0 then
    some (Char.ofNat (c.toNat + r.delta).toNat)
  else none

/-- The runs, from the gap before each, how many characters it has and its `delta`. The first gap
begins at `start`. -/
def CaseRun.ofGaps (start : Nat) : List (Nat × Nat × Int) → List CaseRun
  | [] => []
  | (gap, count, delta) :: runs =>
    let lo := start + gap
    ⟨lo, lo + count - 1, 1, delta⟩ :: ofGaps (lo + count) runs

/-- The run that takes the results of `r` back to the characters of `r`. -/
def CaseRun.inverse (r : CaseRun) : CaseRun :=
  ⟨(r.lo + r.delta).toNat, (r.hi + r.delta).toNat, r.step, -r.delta⟩

/-- The letters of upper and of lower case that take turns. -/
def alternatingRuns : List CaseRun :=
  (Ranges.ofRuns 0 [257,47,3,5,2,15,2,45,2,5,4,3,2,1,3,1,5,1,6,1,7,5,2,1,4,1,2,1,3,3,2,1,3,1,7,1,2,
    1,2,1,2,15,2,17,2,1,2,1,3,39,3,17,8,1,5,1,4,9,289,3,3,1,97,23,8,1,2,1,101,33,9,53,2,13,2,95,
    6353,149,11,95,644,1,2780,1,6,5,6,1,2,1,10,99,8,3,4,1,31053,45,19,27,135,13,3,61,10,3,2,9,4,1,4,
    3,3,19,11,15,4,3,6,1,5,3,28,1]).map fun (lo, hi) => ⟨lo, hi, 2, -1⟩

def upperRuns : List CaseRun :=
  alternatingRuns ++ CaseRun.ofGaps 0 [(97, 26, -32), (58, 1, 743), (42, 23, -32), (1, 7, -32), (0,
    1, 121), (49, 1, -232), (77, 1, -300), (0, 1, 195), (20, 1, 97), (4, 1, 163), (3, 1, 130), (32,
    1, 56), (6, 1, -2), (2, 1, -2), (2, 1, -2), (16, 1, -79), (21, 1, -2), (75, 2, 10815), (15, 1,
    10783), (0, 1, 10780), (0, 1, 10782), (0, 1, -210), (0, 1, -206), (1, 2, -205), (1, 1, -202),
    (1, 1, -203), (0, 1, 42319), (3, 1, -205), (0, 1, 42315), (1, 1, -207), (1, 1, 42280), (0, 1,
    42308), (1, 1, -209), (0, 1, -211), (0, 1, 42308), (0, 1, 10743), (0, 1, 42305), (2, 1, -211),
    (1, 1, 10749), (0, 1, -213), (2, 1, -214), (7, 1, 10727), (2, 1, -218), (1, 1, 42307), (0, 1,
    -218), (3, 1, 42282), (0, 1, -218), (0, 1, -69), (0, 2, -217), (0, 1, -71), (5, 1, -219), (10,
    1, 42261), (0, 1, 42258), (166, 1, 84), (53, 3, 130), (46, 1, -38), (0, 3, -37), (1, 17, -32),
    (0, 1, -31), (0, 9, -32), (0, 1, -64), (0, 2, -63), (1, 1, -62), (0, 1, -57), (3, 1, -47), (0,
    1, -54), (0, 1, -8), (24, 1, -86), (0, 1, -80), (0, 1, 7), (0, 1, -116), (1, 1, -96), (58, 32,
    -32), (0, 16, -80), (111, 1, -15), (145, 38, -48), (2889, 43, 3008), (2, 3, 3008), (760, 6, -8),
    (2178, 1, -6254), (0, 1, -6253), (0, 1, -6244), (0, 2, -6242), (0, 1, -6243), (0, 1, -6236), (0,
    1, -6181), (0, 1, 35266), (240, 1, 35332), (3, 1, 3814), (16, 1, 35384), (268, 1, -59), (100, 8,
    8), (8, 6, 8), (10, 8, 8), (8, 8, 8), (8, 6, 8), (11, 1, 8), (1, 1, 8), (1, 1, 8), (1, 1, 8),
    (8, 8, 8), (8, 2, 74), (0, 4, 86), (0, 2, 100), (0, 2, 128), (0, 2, 112), (0, 2, 126), (50, 2,
    8), (12, 1, -7205), (17, 2, 8), (14, 2, 8), (3, 1, 7), (360, 1, -28), (33, 16, -16), (848, 26,
    -26), (1862, 48, -48), (5, 1, -10795), (0, 1, -10792), (153, 38, -7264), (1, 1, -7264), (5, 1,
    -7264), (31334, 1, 48), (958, 1, -928), (28, 80, -38864), (21377, 26, -32), (1229, 40, -40),
    (136, 36, -40), (155, 11, -39), (1, 15, -39), (1, 7, -39), (1, 2, -39), (1795, 51, -64), (3021,
    32, -32), (21888, 32, -32), (31394, 34, -34)]

def upperSpecials : List (Nat × List Nat) :=
  -- the Greek vowels with a iota below, which follows their upper case
  [(0x1f80, 0x1f08), (0x1f88, 0x1f08), (0x1f90, 0x1f28), (0x1f98, 0x1f28), (0x1fa0, 0x1f68),
    (0x1fa8, 0x1f68)].flatMap (fun (first, vowel) =>
      (List.range 8).map fun i => (first + i, [vowel + i, 0x399])) ++
  [(0xdf, [0x53, 0x53]), (0x149, [0x2bc, 0x4e]), (0x1f0, [0x4a, 0x30c]), (0x390, [0x399, 0x308,
    0x301]), (0x3b0, [0x3a5, 0x308, 0x301]), (0x587, [0x535, 0x552]), (0x1e96, [0x48, 0x331]),
    (0x1e97, [0x54, 0x308]), (0x1e98, [0x57, 0x30a]), (0x1e99, [0x59, 0x30a]), (0x1e9a, [0x41,
    0x2be]), (0x1f50, [0x3a5, 0x313]), (0x1f52, [0x3a5, 0x313, 0x300]), (0x1f54, [0x3a5, 0x313,
    0x301]), (0x1f56, [0x3a5, 0x313, 0x342]), (0x1fb2, [0x1fba, 0x399]), (0x1fb3, [0x391, 0x399]),
    (0x1fb4, [0x386, 0x399]), (0x1fb6, [0x391, 0x342]), (0x1fb7, [0x391, 0x342, 0x399]), (0x1fbc,
    [0x391, 0x399]), (0x1fc2, [0x1fca, 0x399]), (0x1fc3, [0x397, 0x399]), (0x1fc4, [0x389, 0x399]),
    (0x1fc6, [0x397, 0x342]), (0x1fc7, [0x397, 0x342, 0x399]), (0x1fcc, [0x397, 0x399]), (0x1fd2,
    [0x399, 0x308, 0x300]), (0x1fd3, [0x399, 0x308, 0x301]), (0x1fd6, [0x399, 0x342]), (0x1fd7,
    [0x399, 0x308, 0x342]), (0x1fe2, [0x3a5, 0x308, 0x300]), (0x1fe3, [0x3a5, 0x308, 0x301]),
    (0x1fe4, [0x3a1, 0x313]), (0x1fe6, [0x3a5, 0x342]), (0x1fe7, [0x3a5, 0x308, 0x342]), (0x1ff2,
    [0x1ffa, 0x399]), (0x1ff3, [0x3a9, 0x399]), (0x1ff4, [0x38f, 0x399]), (0x1ff6, [0x3a9, 0x342]),
    (0x1ff7, [0x3a9, 0x342, 0x399]), (0x1ffc, [0x3a9, 0x399]), (0xfb00, [0x46, 0x46]), (0xfb01,
    [0x46, 0x49]), (0xfb02, [0x46, 0x4c]), (0xfb03, [0x46, 0x46, 0x49]), (0xfb04, [0x46, 0x46,
    0x4c]), (0xfb05, [0x53, 0x54]), (0xfb06, [0x53, 0x54]), (0xfb13, [0x544, 0x546]), (0xfb14,
    [0x544, 0x535]), (0xfb15, [0x544, 0x53b]), (0xfb16, [0x54e, 0x546]), (0xfb17, [0x544, 0x53d])]

/-- Characters whose lower case is not the first character with that upper case. -/
def irregularLowerRuns : List CaseRun :=
  [⟨0x1c4, 0x1c4, 1, 2⟩, ⟨0x1c5, 0x1c5, 1, 1⟩, ⟨0x1c7, 0x1c7, 1, 2⟩, ⟨0x1c8, 0x1c8, 1, 1⟩, ⟨0x1ca,
    0x1ca, 1, 2⟩, ⟨0x1cb, 0x1cb, 1, 1⟩, ⟨0x1f1, 0x1f1, 1, 2⟩, ⟨0x1f2, 0x1f2, 1, 1⟩, ⟨0x399, 0x399,
    1, 32⟩, ⟨0x39c, 0x39c, 1, 32⟩, ⟨0x3a3, 0x3a3, 1, 32⟩, ⟨0x3f4, 0x3f4, 1, -60⟩, ⟨0x1e9e, 0x1e9e,
    1, -7615⟩, ⟨0x1f88, 0x1f8f, 1, -8⟩, ⟨0x1f98, 0x1f9f, 1, -8⟩, ⟨0x1fa8, 0x1faf, 1, -8⟩, ⟨0x1fbc,
    0x1fbc, 1, -9⟩, ⟨0x1fcc, 0x1fcc, 1, -9⟩, ⟨0x1ffc, 0x1ffc, 1, -9⟩, ⟨0x2126, 0x2126, 1, -7517⟩,
    ⟨0x212a, 0x212a, 1, -8383⟩, ⟨0x212b, 0x212b, 1, -8262⟩, ⟨0xa64a, 0xa64a, 1, 1⟩]

/-- Lower case undoes upper case, the irregular characters apart. -/
def lowerRuns : List CaseRun :=
  irregularLowerRuns ++ upperRuns.map CaseRun.inverse

def lowerSpecials : List (Nat × List Nat) :=
  [(0x130, [0x69, 0x307])]

/-- Letters with a case, the ones that are ignorable left out. -/
def casedRanges : Ranges :=
  .ofRuns 0 [65,26,6,26,47,1,10,1,4,1,5,23,1,31,1,195,1,4,4,208,1,27,192,4,2,2,3,3,1,1,6,1,1,3,1,1,
    1,20,1,83,1,139,8,166,1,38,9,41,2839,38,1,1,5,1,2,43,2,3,672,86,2,6,2178,9,7,43,2,3,64,44,63,13,
    1,34,101,278,2,6,2,38,2,6,2,8,1,1,1,1,1,1,1,31,2,53,1,7,1,1,3,3,1,7,3,4,2,6,4,13,5,3,1,7,261,1,
    4,1,2,10,1,1,3,5,6,1,1,1,1,1,1,4,1,6,4,1,2,4,5,5,4,1,17,32,3,2,817,52,1814,124,2,103,6,4,3,2,12,
    38,1,1,5,1,30994,46,18,28,134,78,1,23,3,4,1,59,5,2,1,1,1,5,27,2,3,1,821,43,5,9,7,80,20288,7,12,
    5,1033,26,6,26,1189,80,96,36,4,36,116,11,1,15,1,7,1,2,1,11,1,15,1,7,1,2,1731,51,13,51,2989,64,
    21856,64,25984,85,1,71,1,2,2,1,2,2,2,4,1,12,1,1,1,7,1,65,1,4,2,8,1,7,1,28,1,4,1,5,1,1,3,7,1,340,
    2,25,1,25,1,31,1,25,1,31,1,25,1,31,1,25,1,31,1,25,1,8,1844,10,1,20,2529,68,2028,26,6,26,6,26]

/-- Spacing marks among the characters that attach to the one before them. -/
def spacingRanges : Ranges :=
  .ofRuns 0 [2494,1,24,1,358,1,24,1,102,1,24,1,234,1,18,2,103,1,24,1,119,1,15,1,3413,1,5368,2,58126,
    1,24,1,344,1,12,1,241,1,896,1,47156,1,8,5]

/-- Letters, symbols and format characters without a case that do not attach to the one before
them. -/
def caselessRanges : Ranges :=
  .ofRuns 0 [39,1,6,1,11,1,35,1,1,1,71,1,4,1,1,1,4,1,2,2,503,80,116,2,4,1,9,2,1,1,465,1,5,1,148,1,
    11,6,22,1,35,1,156,1,7,2,40,1,228,2,4,1,31,1,9,1,3,1,95,1,7,2,55,1,24,1,142,1,1236,1,127,1,565,
    1,1754,1,54,1,52,1,611,1,464,6,174,63,13,1,34,37,509,1,1,3,11,3,13,3,13,3,13,2,12,1,1,3,8,2,10,
    1,2,1,2,5,49,5,1,10,1,1,13,1,16,13,3039,2,241,1,191,1,469,1,43,5,5,1,95,4,93,3,28438,1,1250,6,
    270,1,114,1,28,2,98,34,78,1,23,3,103,3,3,2,469,1,22,1,137,1,108,1,21,2,102,5,9,3,20550,17,592,1,
    62,1,2,1,169,1,7,1,6,1,11,1,35,1,1,1,47,1,114,1,21,3,1924,6,1,42,1,9,2306,1,15,1,9058,9,14087,4,
    1103,13,64,2,1,1,16396,4,1,7,1,2,3233,4,5327,8,4028,7,2061,1,2735,5,789505,1]

/-- Whether a character is skipped when looking for a neighbour with a case. -/
def isIgnorable (c : Char) : Bool :=
  caselessRanges.contains c || attachedRanges.contains c && !spacingRanges.contains c

def mapCase (runs : List CaseRun) (specials : List (Nat × List Nat)) (c : Char) : List Char :=
  match specials.lookup c.toNat with
  | some cs => cs.map Char.ofNat
  | none => [(runs.findSome? (·.map? c)).getD c]

def upperChar (c : Char) : List Char :=
  if c.toNat < 0x80 then [c.toUpper] else mapCase upperRuns upperSpecials c

def lowerChar (c : Char) : List Char :=
  if c.toNat < 0x80 then [c.toLower] else mapCase lowerRuns lowerSpecials c

def upper (cs : List Char) : List Char :=
  cs.flatMap upperChar

def nextIsCased (cs : List Char) : Bool :=
  match cs.dropWhile isIgnorable with
  | c :: _ => casedRanges.contains c
  | [] => false

/-- Lower case of `cs`, which follows the reversed text `before`. A capital sigma that ends a word
becomes a final sigma. -/
def lowerAfter (before : List Char) : List Char → List Char
  | [] => []
  | c :: cs =>
    (if c = 'Σ' then
      [if nextIsCased before && !nextIsCased cs then 'ς' else 'σ']
    else lowerChar c) ++ lowerAfter (c :: before) cs

def lower (cs : List Char) : List Char :=
  lowerAfter [] cs

end BlockScript.Text
