import LayerGate.Text.Ranges

/-!
# Identifiers

The default identifier syntax of the Unicode standard, with the underscore as a start.
-/

namespace LayerGate.Text

/-- The characters beyond ASCII that may start an identifier. -/
def identifierStartTable : Ranges := Ranges.ofText
  "aa 0 b 0 5 0 6 16 2 1e 2 1c9 5 b f 4 8 0 2 0 82 4 2 1 4 2 2 0 7 0 2 2 2 0 2 13 2 52 2 8a 9
a5 2 25 3 0 7 28 48 1a 5 3 2e 2a 24 1 2 62 2 0 10 1 8 1 b 2 3 0 11 0 2 1d 1e 58 c 0 19 20 a
1 5 0 6 15 5 0 a 0 4 0 18 18 8 a 6 17 2 5 12 29 3b 35 4 0 13 0 8 9 10 f 5 7 3 1 3 15 2 6 2 0
4 3 4 0 11 0 e 1 2 2 f 1 b 0 9 5 5 1 3 15 2 6 2 1 2 1 2 1 20 3 2 0 14 2 11 8 2 2 2 15 2 6 2
1 2 4 4 0 13 0 10 1 18 0 c 7 3 1 3 15 2 6 2 1 2 4 4 0 1f 1 2 2 10 0 12 0 2 5 4 2 2 3 4 1 2 0
2 1 4 1 4 2 4 b 17 0 35 7 2 2 2 16 2 f 4 0 1b 2 3 0 3 1 1f 0 5 7 2 2 2 16 2 9 2 4 4 0 20 1 2
1 10 1 12 8 2 2 2 28 3 0 11 0 6 2 9 2 19 5 6 11 4 17 2 8 2 0 3 6 3b 2f 2 0 e 6 3b 1 2 0 2 4
2 17 2 0 2 9 2 0 b 0 3 4 2 0 16 3 21 0 40 7 2 23 1c 4 74 2a 15 0 11 5 5 3 4 0 4 1 8 2 5 c d
0 12 25 2 0 6 0 3 2a 2 14c 2 3 3 6 2 0 2 3 3 28 2 3 3 20 2 3 3 6 2 0 2 3 3 e 2 38 2 3 3 42
26 f 11 55 3 5 4 26b 3 10 2 19 6 4a 4 a 8 11 e 12 f 11 f c 2 2 10 33 24 0 5 0 44 58 8 28 2 0
6 45 b 1e 32 1d 3 4 c 2b 5 19 37 16 a 34 53 0 5e 2e 12 7 37 1d e 1 b 2b 1b 23 2a 2 b 23 3 8
8 2a 3 2 2a 3 2 5 2 1 4 0 6 bf 41 115 3 5 3 25 3 5 3 7 2 0 2 0 2 0 2 1e 3 34 2 6 2 0 4 2 2 6
4 3 3 5 5 c 6 2 2 6 75 0 e 0 11 c 66 0 5 0 3 9 2 0 3 5 7 0 2 0 2 0 2 f 3 3 6 4 5 0 12 28 a78
e4 7 3 4 1 d 25 2 0 6 0 3 37 8 0 11 16 a 6 2 6 2 6 2 6 2 6 2 6 2 6 2 6 227 2 1a 8 8 4 3 4 5
55 7 2 2 59 2 3 6 2a 2 5d 12 1f 31 f 201 19bf 41 568c 44 2d 3 10c 4 f b 1 15 2e 11 1e 3 4f
28 8 3 66 3 3f 6 1 2 0 2 4 19 f 2 2 2 3 2 16 1e 33 f 31 3f 5 4 0 2 1 c 1b b 16 1a 1c 8 2e 1d
0 11 4 2 9 b 4 2 28 18 2 2 7 15 16 4 0 4 31 2 0 4 1 3 4 3 0 2 0 19 2 3 a 8 2 d 5 3 5 3 5 a 6
2 6 2 2a 2 d 7 72 1e 2ba3 d 16 5 30 2105 16d 3 69 27 6 d 4 6 0 2 9 2 c 2 4 2 0 2 1 2 1 2 6b
22 8a 7 d9 13 3f 3 35 29 9 78 0 2 0 4 0 2 0 2 0 2 0 2 7d 25 19 7 19 c 37 3 1e 4 5 3 5 3 5 3
2 24 b 2 19 2 12 2 1 2 e 3 d 23 7a 46 34 10c 1c 4 30 30 1f e 1d 6 25 b 1d 3 23 5 7 2 4 2b 9d
13 23 5 23 5 27 9 33 d a 2 e 2 6 2 1 2 a 2 e 2 6 2 1 44 136 a 15 b 7 19 5 2 29 2 8 46 5 3 0
2 2b 2 1 4 0 3 16 b 16 a 1e 42 12 2 1 b 15 b 19 47 37 7 1 41 0 10 3 2 2 2 1c 2b 1c 4 1c 24 7
2 1b 1c 35 b 15 b 12 e 11 6f 48 38 32 e 32 e 23 15d 29 7 1 4f 1c b 0 9 15 2b 11 2f 14 1c 16
d 34 3a 1 3 0 e 2c 21 18 1b 23 1e 0 3 0 9 22 4 0 d 2f f 3 16 0 2 0 24 11 2 18 55 6 2 0 2 3 2
e 2 9 8 2e 27 7 3 1 3 15 2 6 2 1 2 4 4 0 13 0 d 4 9f 34 13 3 15 2 1f 2f 15 1 2 0 b9 2e 2a 3
25 2f 15 0 3c 2a e 0 48 1a 26 6 ba 2b 75 3f 20 7 3 0 3 7 2 1 2 17 10 0 2 0 5f 7 3 26 11 0 2
0 1d 0 b 27 8 0 16 0 c 2d 14 0 13 48 108 8 2 24 12 0 32 1d 71 6 2 1 2 25 16 0 1a 5 2 1 2 1f
f 0 148 12 be 0 50 399 67 6e 12 c3 a4d 60 10 42e fd2 246 21ba 238 8 1e 12 4e 12 1d 13 2f 11
3 20 14 6 12 2b1 3f 81 4a 6 0 43 c 41 1 2 0 1d 17f7 9 4d5 2b 8 22e8 3 2 6 2 1 2 122 2e 2 12
3 9 18b 905 6a 6 c 4 8 8 9 1767 54 2 46 2 1 3 0 3 1 3 3 2 b 2 0 2 6 2 40 2 3 3 7 2 6 2 1b 2
3 2 4 2 0 4 6 2 153 3 18 2 18 2 1e 2 18 2 1e 2 18 2 1e 2 18 2 1e 2 18 2 7 735 1e 1e2 2c b 6
11 0 142 1d 13 2b 4f5 6 2 3 2 1 2 e 2 c4 3c 43 8 0 4b5 3 2 1a 2 1 2 0 3 0 2 9 2 3 2 0 2 0 7
0 5 0 2 0 2 0 2 2 2 1 2 0 3 0 2 0 2 0 2 0 2 0 2 1 2 0 3 3 2 6 2 3 2 3 2 0 2 9 2 10 6 2 2 4 2
10 1145 a6df 21 1038 8 dd 3 1681 f 1d30 c20 21d 5e3 134a"

/-- The characters beyond ASCII that may continue an identifier. -/
def identifierTable : Ranges := Ranges.ofText
  "aa 0 b 0 2 0 3 0 6 16 2 1e 2 1c9 5 b f 4 8 0 2 0 12 74 2 1 4 2 2 0 7 4 2 0 2 13 2 52 2 8a 2
4 3 a5 2 25 3 0 7 28 9 2c 2 0 2 1 2 1 2 0 9 1a 5 3 1e a 6 49 5 65 2 7 3 9 2 12 3 0 11 3a 3
64 f 35 5 0 3 0 3 2d 13 1b 5 a 6 17 2 5 a 49 2 80 3 9 2 12 2 7 3 1 3 15 2 6 2 0 4 3 3 8 3 1
3 3 9 0 5 1 2 4 3 b b 0 2 0 3 2 2 5 5 1 3 15 2 6 2 1 2 1 2 1 3 0 2 4 5 1 3 2 4 0 8 3 2 0 8 f
c 2 2 8 2 2 2 15 2 6 2 1 2 4 3 9 2 2 2 2 3 0 10 3 3 9 a 6 2 2 2 7 3 1 3 15 2 6 2 1 2 4 3 8 3
1 3 2 8 2 5 1 2 4 3 9 2 0 11 1 2 5 4 2 2 3 4 1 2 0 2 1 4 1 4 2 4 b 5 4 4 2 2 3 3 0 7 0 f 9
11 c 2 2 2 16 2 f 3 8 2 2 2 3 8 1 2 2 3 0 3 3 3 9 11 3 2 7 2 2 2 16 2 9 2 4 3 8 2 2 2 3 8 1
7 1 2 3 3 9 2 1 e c 2 2 2 32 2 2 2 4 6 3 8 4 3 9 b 5 2 2 2 11 4 17 2 8 2 0 3 6 4 0 5 5 2 0 2
7 7 9 3 1 e 39 6 e 2 9 28 1 2 0 2 4 2 17 2 0 2 16 3 4 2 0 2 5 3 9 3 3 21 0 18 1 7 9 c 0 2 0
2 0 5 9 2 23 5 13 2 11 2 23 a 0 3a 49 7 4d 3 25 2 0 6 0 3 2a 2 14c 2 3 3 6 2 0 2 3 3 28 2 3
3 20 2 3 3 6 2 0 2 3 3 e 2 38 2 3 3 42 3 2 a 8 f f 11 55 3 5 4 26b 3 10 2 19 6 4a 4 a 8 15 a
15 c 13 d c 2 2 2 1 d 53 4 0 5 1 3 9 22 2 2 a 7 58 8 2a 6 45 b 1e 2 b 5 b b 27 3 4 c 2b 5 19
7 a 26 1b 5 3e 2 1c 3 a 7 9 e 0 9 d 2 f 32 4c 4 9 12 8 d 73 d 37 9 9 4 30 3 8 8 2a 3 2 11 2
2 26 6 215 3 5 3 25 3 5 3 7 2 0 2 0 2 0 2 1e 3 34 2 6 2 0 4 2 2 6 4 3 3 5 5 c 6 2 2 6 43 1
14 0 1d 0 e 0 11 c 34 c 5 0 4 b 12 0 5 0 3 9 2 0 3 5 7 0 2 0 2 0 2 f 3 3 6 4 5 0 12 28 a78
e4 7 8 d 25 2 0 6 0 3 37 8 0 10 17 a 6 2 6 2 6 2 6 2 6 2 6 2 6 2 6 2 1f 206 2 1a e 2 4 3 4 5
55 3 1 3 2 2 59 2 3 6 2a 2 5d 12 1f 31 f 201 19bf 41 568c 44 2d 3 10c 4 1b 15 2f 5 9 2 72 26
8 3 66 3 3f 6 1 2 0 2 4 19 35 5 0 14 33 d 45 b 9 7 17 4 0 2 30 3 23 d 1c 4 40 f a 7 1e 2 36
a d 3 9 7 16 4 48 19 2 3 f 3 4 b 5 3 5 3 5 a 6 2 6 2 2a 2 d 7 7a 2 1 3 9 7 2ba3 d 16 5 30
2105 16d 3 69 27 6 d 4 6 b 2 c 2 4 2 0 2 1 2 1 2 6b 22 8a 7 d9 13 3f 3 35 29 9 7 f 11 f 4 1
19 2 22 0 2 0 4 0 2 0 2 0 2 0 2 7d 14 9 8 19 5 0 2 19 c 58 4 5 3 5 3 5 3 2 24 b 2 19 2 12 2
1 2 e 3 d 23 7a 46 34 89 0 83 1c 4 30 10 0 20 1f e 1d 6 2a 6 1d 3 23 5 7 2 4 2b 9d 3 9 7 23
5 23 5 27 9 33 d a 2 e 2 6 2 1 2 a 2 e 2 6 2 1 44 136 a 15 b 7 19 5 2 29 2 8 46 5 3 0 2 2b 2
1 4 0 3 16 b 16 a 1e 42 12 2 1 b 15 b 19 47 37 7 1 41 3 2 1 6 7 2 2 2 1c 3 2 5 0 21 1c 4 1c
24 7 2 1d 1a 35 b 15 b 12 e 11 6f 48 38 32 e 32 e 27 9 9 147 29 2 1 4 1 4f 1c b 0 9 20 20 15
2b 14 1c 16 a 46 20 f a 3b 8 0 e 18 8 9 7 34 2 9 5 3 9 23 3 0 a 44 5 3 2 c 2 0 24 11 2 24 7
0 42 6 2 0 2 3 2 e 2 9 8 3a 6 9 7 3 2 7 3 1 3 15 2 6 2 1 2 4 2 9 3 1 3 2 3 0 7 0 6 6 3 6 4 4
8c 4a 6 9 5 3 1f 45 2 0 9 9 a7 35 3 8 18 5 23 40 4 0 c 9 27 38 8 9 37 1a 3 e 5 9 7 6 ba 3a
66 49 16 7 3 0 3 7 2 1 2 1d 2 1 3 8 d 9 47 7 3 2d 3 7 2 1 1c 3e 9 0 9 49 4 0 13 48 108 8 2
2c 2 8 10 9 19 1d 3 15 2 d 4a 6 2 1 2 2b 4 0 2 1 2 8 9 9 7 5 2 1 2 24 2 1 2 5 8 9 137 16 ba
0 50 399 67 6e 12 c3 a4d 60 10 42e fd2 246 21ba 238 8 1e 2 9 7 4e 2 9 7 1d 3 4 c 36 a 3 d 9
a 14 6 12 2b1 3f 81 4a 5 38 8 10 41 1 2 1 c 1 f 17f7 9 4d5 2b 8 22e8 3 2 6 2 1 2 122 2e 2 12
3 9 18b 905 6a 6 c 4 8 8 9 4 1 1262 2d 3 16 21f 4 4 5 9 7 3 6 1f 3 95 2 1bc 54 2 46 2 1 3 0
3 1 3 3 2 b 2 0 2 6 2 40 2 3 3 7 2 6 2 1b 2 3 2 4 2 0 4 6 2 153 3 18 2 18 2 1e 2 18 2 1e 2
18 2 1e 2 18 2 1e 2 18 2 7 3 31 201 36 5 31 9 0 f 0 17 4 2 e 451 1e e2 6 2 10 3 6 2 1 2 4 d6
2c 4 d 3 9 5 0 142 1e 12 39 4e7 6 2 3 2 1 2 e 2 c4 c 6 2a 4b 5 9 4a7 3 2 1a 2 1 2 0 3 0 2 9
2 3 2 0 2 0 7 0 5 0 2 0 2 0 2 2 2 1 2 0 3 0 2 0 2 0 2 0 2 0 2 1 2 0 3 3 2 6 2 3 2 3 2 0 2 9
2 10 6 2 2 4 2 10 d35 9 407 a6df 21 1038 8 dd 3 1681 f 1d30 c20 21d 5e3 134a aedb6 ef"

def isIdentifierStart (c : Char) : Bool :=
  if c.toNat < 0x80 then c.isAlpha || c = '_' else identifierStartTable.contains c.toNat

def isIdentifierPart (c : Char) : Bool :=
  if c.toNat < 0x80 then c.isAlphanum || c = '_' else identifierTable.contains c.toNat

def isIdentifier : List Char → Bool
  | [] => false
  | c :: cs => isIdentifierStart c && cs.all isIdentifierPart

theorem isIdentifierPart_dot : isIdentifierPart '.' = false := by decide

theorem isIdentifierPart_slash : isIdentifierPart '/' = false := by decide

end LayerGate.Text
