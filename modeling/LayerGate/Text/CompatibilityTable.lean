import LayerGate.Text.Ranges
import Std.Data.HashMap

/-!
# Data of the compatibility form

Decompositions of the characters that may occur in identifiers, combining classes and the pairs
that compose.  In each table the first number of an entry is the distance from the entry before it.
-/

namespace LayerGate.Text.Compatibility

abbrev Table (β : Type) := Std.HashMap Nat β

/-- Runs of characters that stand for the characters of another run: distance, length, first target. -/
def singleText : String :=
  "aa 1 61 b 1 3bc 5 1 6f c5 1 73 131 1 68 1 1 266 1 1 6a 1 1 72 1 1 279 1 1 27b 1 1 281 1 1 77
1 1 79 28 1 263 1 1 6c 1 1 73 1 1 78 1 1 295 5c 2 300 3 1 313 31 1 2b9 13 1 b7 49 1 3b2 1 1
3b8 1 1 3a5 3 1 3c6 1 1 3c0 1a 1 3ba 1 2 3c1 3 1 398 1 1 3b5 4 1 3a3 d03 1 10dc c30 1 41 1 1
c6 1 1 42 2 2 44 2 1 18e 1 8 47 9 1 4f 1 1 222 1 1 50 1 1 52 1 2 54 2 1 57 1 1 61 1 2 250 2
1 1d02 1 1 62 1 2 64 2 1 259 1 2 25b 2 1 67 2 1 6b 1 1 6d 1 1 14b 1 1 6f 1 1 254 1 2 1d16 2
1 70 1 2 74 2 1 1d1d 1 1 26f 1 1 76 1 1 1d25 1 3 3b2 3 2 3c6 2 1 69 1 1 72 1 2 75 2 2 3b2 2
1 3c1 1 2 3c6 f 1 43d 23 1 252 1 1 63 1 1 255 1 1 f0 1 1 25c 1 1 66 1 1 25f 1 1 261 1 1 265
1 3 268 3 1 1d7b 1 1 29d 1 1 26d 1 1 1d85 1 1 29f 1 1 271 1 1 270 1 4 272 4 1 278 1 2 282 2
1 1ab 1 2 289 2 1 1d1c 1 2 28b 2 1 7a 1 3 290 3 1 3b8 1ff 1 3b9 b3 1 69 e 1 6e 11 1 61 1 1
65 1 1 6f 1 1 78 1 1 259 1 1 68 1 4 6b 4 1 70 1 2 73 67 1 43 5 1 190 3 1 67 1 1 48 1 1 48 1
1 48 1 1 68 1 1 127 1 1 49 1 1 49 1 1 4c 1 1 6c 2 1 4e 4 3 50 3 1 52 1 1 52 7 1 5a 2 1 3a9 2
1 5a 2 1 4b 2 2 42 3 1 65 1 2 45 3 1 4d 1 1 6f 1 4 5d0 4 1 69 3 1 3c0 1 1 3b3 1 1 393 1 1
3a0 6 1 44 1 2 64 2 2 69 18 1 49 4 1 56 5 1 58 3 1 4c 1 2 43 2 1 4d 1 1 69 4 1 76 5 1 78 3 1
6c 1 2 63 2 1 6d afd 1 6a 1 1 56 f2 1 2d61 2c9 1 5341 1 2 5344 f8 2 1100 2 1 11aa 1 1 1102 1
2 11ac 2 3 1103 3 6 11b0 6 1 111a 1 3 1106 3 1 1121 1 a 1109 a 15 1161 15 1 1160 1 2 1114 2
2 11c7 2 1 11cc 1 1 11ce 1 1 11d3 1 1 11d7 1 1 11d9 1 1 111c 1 1 11dd 1 1 11df 1 2 111d 2 1
1120 1 2 1122 2 1 1127 1 1 1129 1 5 112b 5 1 1132 1 1 1136 1 1 1140 1 1 1147 1 1 114c 1 2
11f1 2 3 1157 3 2 1184 2 1 1188 1 2 1191 2 1 1194 1 1 119e 1 1 11a1 750e 1 44a 1 1 44c d3 1
a76f 82 1 43 1 1 46 1 1 51 4 1 126 1 1 153 363 1 a727 1 1 ab37 1 1 26b 1 1 ab52 a 1 28d 4d97
1 8c48 1 1 66f4 1 1 8eca 1 1 8cc8 1 1 6ed1 1 1 4e32 1 1 53e5 1 1 9f9c 1 1 9f9c 1 1 5951 1 1
91d1 1 1 5587 1 1 5948 1 1 61f6 1 1 7669 1 1 7f85 1 1 863f 1 1 87ba 1 1 88f8 1 1 908f 1 1
6a02 1 1 6d1b 1 1 70d9 1 1 73de 1 1 843d 1 1 916a 1 1 99f1 1 1 4e82 1 1 5375 1 1 6b04 1 1
721b 1 1 862d 1 1 9e1e 1 1 5d50 1 1 6feb 1 1 85cd 1 1 8964 1 1 62c9 1 1 81d8 1 1 881f 1 1
5eca 1 1 6717 1 1 6d6a 1 1 72fc 1 1 90ce 1 1 4f86 1 1 51b7 1 1 52de 1 1 64c4 1 1 6ad3 1 1
7210 1 1 76e7 1 1 8001 1 1 8606 1 1 865c 1 1 8def 1 1 9732 1 1 9b6f 1 1 9dfa 1 1 788c 1 1
797f 1 1 7da0 1 1 83c9 1 1 9304 1 1 9e7f 1 1 8ad6 1 1 58df 1 1 5f04 1 1 7c60 1 1 807e 1 1
7262 1 1 78ca 1 1 8cc2 1 1 96f7 1 1 58d8 1 1 5c62 1 1 6a13 1 1 6dda 1 1 6f0f 1 1 7d2f 1 1
7e37 1 1 964b 1 1 52d2 1 1 808b 1 1 51dc 1 1 51cc 1 1 7a1c 1 1 7dbe 1 1 83f1 1 1 9675 1 1
8b80 1 1 62cf 1 1 6a02 1 1 8afe 1 1 4e39 1 1 5be7 1 1 6012 1 1 7387 1 1 7570 1 1 5317 1 1
78fb 1 1 4fbf 1 1 5fa9 1 1 4e0d 1 1 6ccc 1 1 6578 1 1 7d22 1 1 53c3 1 1 585e 1 1 7701 1 1
8449 1 1 8aaa 1 1 6bba 1 1 8fb0 1 1 6c88 1 1 62fe 1 1 82e5 1 1 63a0 1 1 7565 1 1 4eae 1 1
5169 1 1 51c9 1 1 6881 1 1 7ce7 1 1 826f 1 1 8ad2 1 1 91cf 1 1 52f5 1 1 5442 1 1 5973 1 1
5eec 1 1 65c5 1 1 6ffe 1 1 792a 1 1 95ad 1 1 9a6a 1 1 9e97 1 1 9ece 1 1 529b 1 1 66c6 1 1
6b77 1 1 8f62 1 1 5e74 1 1 6190 1 1 6200 1 1 649a 1 1 6f23 1 1 7149 1 1 7489 1 1 79ca 1 1
7df4 1 1 806f 1 1 8f26 1 1 84ee 1 1 9023 1 1 934a 1 1 5217 1 1 52a3 1 1 54bd 1 1 70c8 1 1
88c2 1 1 8aaa 1 1 5ec9 1 1 5ff5 1 1 637b 1 1 6bae 1 1 7c3e 1 1 7375 1 1 4ee4 1 1 56f9 1 1
5be7 1 1 5dba 1 1 601c 1 1 73b2 1 1 7469 1 1 7f9a 1 1 8046 1 1 9234 1 1 96f6 1 1 9748 1 1
9818 1 1 4f8b 1 1 79ae 1 1 91b4 1 1 96b8 1 1 60e1 1 1 4e86 1 1 50da 1 1 5bee 1 1 5c3f 1 1
6599 1 1 6a02 1 1 71ce 1 1 7642 1 1 84fc 1 1 907c 1 1 9f8d 1 1 6688 1 1 962e 1 1 5289 1 1
677b 1 1 67f3 1 1 6d41 1 1 6e9c 1 1 7409 1 1 7559 1 1 786b 1 1 7d10 1 1 985e 1 1 516d 1 1
622e 1 1 9678 1 1 502b 1 1 5d19 1 1 6dea 1 1 8f2a 1 1 5f8b 1 1 6144 1 1 6817 1 1 7387 1 1
9686 1 1 5229 1 1 540f 1 1 5c65 1 1 6613 1 1 674e 1 1 68a8 1 1 6ce5 1 1 7406 1 1 75e2 1 1
7f79 1 1 88cf 1 1 88e1 1 1 91cc 1 1 96e2 1 1 533f 1 1 6eba 1 1 541d 1 1 71d0 1 1 7498 1 1
85fa 1 1 96a3 1 1 9c57 1 1 9e9f 1 1 6797 1 1 6dcb 1 1 81e8 1 1 7acb 1 1 7b20 1 1 7c92 1 1
72c0 1 1 7099 1 1 8b58 1 1 4ec0 1 1 8336 1 1 523a 1 1 5207 1 1 5ea6 1 1 62d3 1 1 7cd6 1 1
5b85 1 1 6d1e 1 1 66b4 1 1 8f3b 1 1 884c 1 1 964d 1 1 898b 1 1 5ed3 1 1 5140 1 1 55c0 3 1
585a 2 1 6674 3 1 51de 1 1 732a 1 1 76ca 1 1 793c 1 1 795e 1 1 7965 1 1 798f 1 1 9756 1 1
7cbe 1 1 7fbd 2 1 8612 2 1 8af8 3 1 9038 1 1 90fd 4 1 98ef 1 1 98fc 1 1 9928 1 1 9db4 1 1
90de 1 1 96b7 1 1 4fae 1 1 50e7 1 1 514d 1 1 52c9 1 1 52e4 1 1 5351 1 1 559d 1 1 5606 1 1
5668 1 1 5840 1 1 58a8 1 1 5c64 1 1 5c6e 1 1 6094 1 1 6168 1 1 618e 1 1 61f2 1 1 654f 1 1
65e2 1 1 6691 1 1 6885 1 1 6d77 1 1 6e1a 1 1 6f22 1 1 716e 1 1 722b 1 1 7422 1 1 7891 1 1
793e 1 1 7949 1 1 7948 1 1 7950 1 1 7956 1 1 795d 1 2 798d 2 1 7a40 1 1 7a81 1 1 7bc0 1 1
7df4 1 1 7e09 1 1 7e41 1 1 7f72 1 1 8005 1 1 81ed 1 1 8279 1 1 8279 1 1 8457 1 1 8910 1 1
8996 1 1 8b01 1 1 8b39 1 1 8cd3 1 1 8d08 1 1 8fb6 1 1 9038 1 1 96e3 1 1 97ff 1 1 983b 1 1
6075 1 1 242ee 1 1 8218 3 1 4e26 1 1 51b5 1 1 5168 1 1 4f80 1 1 5145 1 1 5180 1 1 52c7 1 1
52fa 1 1 559d 1 1 5555 1 1 5599 1 1 55e2 1 1 585a 1 1 58b3 1 1 5944 1 1 5954 1 1 5a62 1 1
5b28 1 1 5ed2 1 1 5ed9 1 1 5f69 1 1 5fad 1 1 60d8 1 1 614e 1 1 6108 1 1 618e 1 1 6160 1 1
61f2 1 1 6234 1 1 63c4 1 1 641c 1 1 6452 1 1 6556 1 1 6674 1 1 6717 1 1 671b 1 1 6756 1 1
6b79 1 1 6bba 1 1 6d41 1 1 6edb 1 1 6ecb 1 1 6f22 1 1 701e 1 1 716e 1 1 77a7 1 1 7235 1 1
72af 1 1 732a 1 1 7471 1 1 7506 1 1 753b 1 1 761d 1 1 761f 1 1 76ca 1 1 76db 1 1 76f4 1 1
774a 1 1 7740 1 1 78cc 1 1 7ab1 1 1 7bc0 1 1 7c7b 1 1 7d5b 1 1 7df4 1 1 7f3e 1 1 8005 1 1
8352 1 1 83ef 1 1 8779 1 1 8941 1 1 8986 1 1 8996 1 1 8abf 1 1 8af8 1 1 8acb 1 1 8b01 1 1
8afe 1 1 8aed 1 1 8b39 1 1 8b8a 1 1 8d08 1 1 8f38 1 1 9072 1 1 9199 1 1 9276 1 1 967c 1 1
96e3 1 1 9756 1 1 97db 1 1 97ff 1 1 980b 1 1 983b 1 1 9b12 1 1 9f9c 1 1 2284a 1 1 22844 1 1
233d5 1 1 3b9d 1 1 4018 1 1 4039 1 1 25249 1 1 25cd0 1 1 27ed3 1 1 9f43 1 1 9f8e 47 1 5e2 1
1 5d0 1 2 5d3 2 3 5db 3 1 5e8 1 1 5ea 28 1 671 1 1 671 1 1 67b 1 1 67b 1 1 67b 1 1 67b 1 1
67e 1 1 67e 1 1 67e 1 1 67e 1 1 680 1 1 680 1 1 680 1 1 680 1 1 67a 1 1 67a 1 1 67a 1 1 67a
1 1 67f 1 1 67f 1 1 67f 1 1 67f 1 1 679 1 1 679 1 1 679 1 1 679 1 1 6a4 1 1 6a4 1 1 6a4 1 1
6a4 1 1 6a6 1 1 6a6 1 1 6a6 1 1 6a6 1 1 684 1 1 684 1 1 684 1 1 684 1 1 683 1 1 683 1 1 683
1 1 683 1 1 686 1 1 686 1 1 686 1 2 686 2 1 687 1 1 687 1 1 687 1 1 68d 1 1 68d 1 1 68c 1 1
68c 1 1 68e 1 1 68e 1 1 688 1 1 688 1 1 698 1 1 698 1 1 691 1 1 691 1 1 6a9 1 1 6a9 1 1 6a9
1 1 6a9 1 1 6af 1 1 6af 1 1 6af 1 1 6af 1 1 6b3 1 1 6b3 1 1 6b3 1 1 6b3 1 1 6b1 1 1 6b1 1 1
6b1 1 1 6b1 1 1 6ba 1 2 6ba 2 1 6bb 1 1 6bb 1 1 6bb 3 1 6c1 1 1 6c1 1 1 6c1 1 1 6c1 1 1 6be
1 1 6be 1 1 6be 1 1 6be 1 1 6d2 1 1 6d2 24 1 6ad 1 1 6ad 1 1 6ad 1 1 6ad 1 1 6c7 1 1 6c7 1 1
6c6 1 1 6c6 1 1 6c8 1 1 6c8 2 1 6cb 1 1 6cb 1 1 6c5 1 1 6c5 1 1 6c9 1 1 6c9 1 1 6d0 1 1 6d0
1 1 6d0 1 1 6d0 1 1 649 1 1 649 13 1 6cc 1 1 6cc 1 1 6cc 1 1 6cc 234 1 5f 1 1 5f 19 1 5f 1 1
5f 1 1 5f 31 1 621 d 1 627 1 2 627 2 1 628 1 1 628 1 2 628 2 2 629 2 1 62a 1 1 62a 1 2 62a 2
1 62b 1 1 62b 1 2 62b 2 1 62c 1 1 62c 1 2 62c 2 1 62d 1 1 62d 1 2 62d 2 1 62e 1 1 62e 1 2
62e 2 2 62f 2 2 630 2 2 631 2 2 632 2 1 633 1 1 633 1 2 633 2 1 634 1 1 634 1 2 634 2 1 635
1 1 635 1 2 635 2 1 636 1 1 636 1 2 636 2 1 637 1 1 637 1 2 637 2 1 638 1 1 638 1 2 638 2 1
639 1 1 639 1 2 639 2 1 63a 1 1 63a 1 1 63a 1 1 641 1 1 641 1 1 641 1 2 641 2 1 642 1 1 642
1 2 642 2 1 643 1 1 643 1 2 643 2 1 644 1 1 644 1 2 644 2 1 645 1 1 645 1 2 645 2 1 646 1 1
646 1 2 646 2 1 647 1 1 647 1 2 647 2 2 648 2 2 649 2 1 64a 1 1 64a 1 1 64a 1c a 30 11 1a 41
1e 1 5f 2 1a 61 25 1 30f2 1 1 30a1 1 1 30a3 1 1 30a5 1 1 30a7 1 1 30a9 1 1 30e3 1 1 30e5 1 1
30e7 1 1 30c3 1 1 30fc 1 1 30a2 1 1 30a4 1 1 30a6 1 1 30a8 1 2 30aa 2 1 30ad 1 1 30af 1 1
30b1 1 1 30b3 1 1 30b5 1 1 30b7 1 1 30b9 1 1 30bb 1 1 30bd 1 1 30bf 1 1 30c1 1 1 30c4 1 1
30c6 1 1 30c8 1 6 30ca 6 1 30d2 1 1 30d5 1 1 30d8 1 1 30db 1 5 30de 5 1 30e4 1 1 30e6 1 6
30e8 6 1 30ef 1 1 30f3 1 2 3099 2 1 1160 1 2 1100 2 1 11aa 1 1 1102 1 2 11ac 2 3 1103 3 6
11b0 6 1 111a 1 3 1106 3 1 1121 1 a 1109 d 6 1161 8 6 1167 8 6 116d 8 3 1173 7a7 2 2d0 2 1
e6 1 1 299 1 1 253 2 1 2a3 1 1 ab66 1 1 2a5 1 1 2a4 1 2 256 2 1 1d91 1 1 258 1 1 25e 1 1 2a9
1 1 264 1 1 262 1 1 260 1 1 29b 1 1 127 1 1 29c 1 1 267 1 1 284 1 2 2aa 2 1 26c 1 1 1df04 1
1 a78e 1 1 26e 1 1 1df05 1 1 28e 1 1 1df06 1 1 f8 1 2 276 2 1 71 1 1 27a 1 1 1df08 1 2 27d 2
1 280 1 1 2a8 1 1 2a6 1 1 ab67 1 1 2a7 1 1 288 1 1 2c71 2 1 28f 1 2 2a1 2 1 298 1 3 1c0 3 1
1df0a 1 1 1df1e cc46 1a 41 1a 1a 61 1a 1a 41 1a 7 61 8 12 69 12 1a 41 1a 1a 61 1a 1 41 2 2
43 4 1 47 3 2 4a 4 4 4e 5 8 53 8 4 61 5 1 66 2 7 68 8 b 70 b 1a 41 1a 1a 61 1a 2 41 3 4 44 6
8 4a 9 7 53 8 1a 61 1a 2 41 3 4 44 5 5 49 6 1 4f 4 7 53 8 1a 61 1a 1a 41 1a 1a 61 1a 1a 41
1a 1a 61 1a 1a 41 1a 1a 61 1a 1a 41 1a 1a 61 1a 1a 41 1a 1a 61 1a 1a 41 1a 1a 61 1a 1 131 1
1 237 3 11 391 11 1 398 1 7 3a3 8 19 3b1 1a 1 3b5 1 1 3b8 1 1 3ba 1 1 3c6 1 1 3c1 1 1 3c0 1
11 391 11 1 398 1 7 3a3 8 19 3b1 1a 1 3b5 1 1 3b8 1 1 3ba 1 1 3c6 1 1 3c1 1 1 3c0 1 11 391
11 1 398 1 7 3a3 8 19 3b1 1a 1 3b5 1 1 3b8 1 1 3ba 1 1 3c6 1 1 3c1 1 1 3c0 1 11 391 11 1 398
1 7 3a3 8 19 3b1 1a 1 3b5 1 1 3b8 1 1 3ba 1 1 3c6 1 1 3c1 1 1 3c0 1 11 391 11 1 398 1 7 3a3
8 19 3b1 1a 1 3b5 1 1 3b8 1 1 3ba 1 1 3c6 1 1 3c1 1 1 3c0 1 2 3dc 4 a 30 a a 30 a a 30 a a
30 a a 30 160a 2 627 2 1 62c 1 1 62f 2 1 648 1 1 632 1 1 62d 1 1 637 1 1 64a 1 4 643 4 1 633
1 1 639 1 1 641 1 1 635 1 1 642 1 1 631 1 1 634 1 2 62a 2 1 62e 1 1 630 1 1 636 1 1 638 1 1
63a 1 1 66e 1 1 6ba 1 1 6a1 1 1 66f 2 1 628 1 1 62c 2 1 647 3 1 62d 2 1 64a 1 4 643 4 1 633
1 1 639 1 1 641 1 1 635 1 1 642 2 1 634 1 2 62a 2 1 62e 2 1 636 2 1 63a 7 1 62c 5 1 62d 2 1
64a 2 1 644 2 1 646 1 1 633 1 1 639 2 1 635 1 1 642 2 1 634 3 1 62e 2 1 636 2 1 63a 2 1 6ba
2 1 66f 2 1 628 1 1 62c 2 1 647 3 1 62d 1 1 637 1 1 64a 1 1 643 2 2 645 2 1 633 1 1 639 1 1
641 1 1 635 1 1 642 2 1 634 1 2 62a 2 1 62e 2 1 636 1 1 638 1 1 63a 1 1 66e 2 1 6a1 2 2 627
2 1 62c 1 1 62f 1 2 647 2 1 632 1 1 62d 1 1 637 1 1 64a 2 3 644 3 1 633 1 1 639 1 1 641 1 1
635 1 1 642 1 1 631 1 1 634 1 2 62a 2 1 62e 1 1 630 1 1 636 1 1 638 1 1 63a 6 1 628 1 1 62c
1 1 62f 2 1 648 1 1 632 1 1 62d 1 1 637 1 1 64a 2 3 644 3 1 633 1 1 639 1 1 641 1 1 635 1 1
642 1 1 631 1 1 634 1 2 62a 2 1 62e 1 1 630 1 1 636 1 1 638 1 1 63a d35 a 30 fc10 1 4e3d 1 1
4e38 1 1 4e41 1 1 20122 1 1 4f60 1 1 4fae 1 1 4fbb 1 1 5002 1 1 507a 1 1 5099 1 1 50e7 1 1
50cf 1 1 349e 1 1 2063a 1 1 514d 1 1 5154 1 1 5164 1 1 5177 1 1 2051c 1 1 34b9 1 1 5167 1 1
518d 1 1 2054b 1 1 5197 1 1 51a4 1 1 4ecc 1 1 51ac 1 1 51b5 1 1 291df 1 1 51f5 1 1 5203 1 1
34df 1 1 523b 1 1 5246 1 1 5272 1 1 5277 1 1 3515 1 1 52c7 1 1 52c9 1 1 52e4 1 1 52fa 1 2
5305 2 1 5317 1 1 5349 1 1 5351 1 1 535a 1 1 5373 1 1 537d 1 1 537f 1 1 537f 1 1 537f 1 1
20a2c 1 1 7070 1 1 53ca 1 1 53df 1 1 20b63 1 1 53eb 1 1 53f1 1 1 5406 1 1 549e 1 1 5438 1 1
5448 1 1 5468 1 1 54a2 1 1 54f6 1 1 5510 1 1 5553 1 1 5563 1 1 5584 1 1 5584 1 1 5599 1 1
55ab 1 1 55b3 1 1 55c2 1 1 5716 1 1 5606 1 1 5717 1 1 5651 1 1 5674 1 1 5207 1 1 58ee 1 1
57ce 1 1 57f4 1 1 580d 1 1 578b 1 1 5832 1 1 5831 1 1 58ac 1 1 214e4 1 1 58f2 1 1 58f7 1 1
5906 1 1 591a 1 1 5922 1 1 5962 1 1 216a8 1 1 216ea 1 1 59ec 1 1 5a1b 1 1 5a27 1 1 59d8 1 1
5a66 1 1 36ee 1 1 36fc 1 1 5b08 1 1 5b3e 1 1 5b3e 1 1 219c8 1 1 5bc3 1 1 5bd8 1 1 5be7 1 1
5bf3 1 1 21b18 1 1 5bff 1 1 5c06 1 1 5f53 1 1 5c22 1 1 3781 1 1 5c60 1 1 5c6e 1 1 5cc0 1 1
5c8d 1 1 21de4 1 1 5d43 1 1 21de6 1 1 5d6e 1 1 5d6b 1 1 5d7c 1 2 5de1 2 1 382f 1 1 5dfd 1 1
5e28 1 1 5e3d 1 1 5e69 1 1 3862 1 1 22183 1 1 387c 1 1 5eb0 1 1 5eb3 1 1 5eb6 1 1 5eca 1 1
2a392 1 1 5efe 1 1 22331 1 1 22331 1 1 8201 1 1 5f22 1 1 5f22 1 1 38c7 1 1 232b8 1 1 261da 1
1 5f62 1 1 5f6b 1 1 38e3 1 1 5f9a 1 1 5fcd 1 1 5fd7 1 1 5ff9 1 1 6081 1 1 393a 1 1 391c 1 1
6094 1 1 226d4 1 1 60c7 1 1 6148 1 1 614c 1 1 614e 1 1 614c 1 1 617a 1 1 618e 1 1 61b2 1 1
61a4 1 1 61af 1 1 61de 1 1 61f2 1 1 61f6 1 1 6210 1 1 621b 1 1 625d 1 1 62b1 1 1 62d4 1 1
6350 1 1 22b0c 1 1 633d 1 1 62fc 1 1 6368 1 1 6383 1 1 63e4 1 1 22bf1 1 1 6422 1 1 63c5 1 1
63a9 1 1 3a2e 1 1 6469 1 1 647e 1 1 649d 1 1 6477 1 1 3a6c 1 1 654f 1 1 656c 1 1 2300a 1 1
65e3 1 1 66f8 1 1 6649 1 1 3b19 1 1 6691 1 1 3b08 1 1 3ae4 1 1 5192 1 1 5195 1 1 6700 1 1
669c 1 1 80ad 1 1 43d9 1 1 6717 1 1 671b 1 1 6721 1 1 675e 1 1 6753 1 1 233c3 1 1 3b49 1 1
67fa 1 1 6785 1 1 6852 1 1 6885 1 1 2346d 1 1 688e 1 1 681f 1 1 6914 1 1 3b9d 1 1 6942 1 1
69a3 1 1 69ea 1 1 6aa8 1 1 236a3 1 1 6adb 1 1 3c18 1 1 6b21 1 1 238a7 1 1 6b54 1 1 3c4e 1 1
6b72 1 1 6b9f 1 2 6bba 2 1 23a8d 1 1 21d0b 1 1 23afa 1 1 6c4e 1 1 23cbc 1 1 6cbf 1 1 6ccd 1
1 6c67 1 1 6d16 1 1 6d3e 1 1 6d77 1 1 6d41 1 1 6d69 1 1 6d78 1 1 6d85 1 1 23d1e 1 1 6d34 1 1
6e2f 1 1 6e6e 1 1 3d33 1 1 6ecb 1 1 6ec7 1 1 23ed1 1 1 6df9 1 1 6f6e 1 1 23f5e 1 1 23f8e 1 1
6fc6 1 1 7039 1 1 701e 1 1 701b 1 1 3d96 1 1 704a 1 1 707d 1 1 7077 1 1 70ad 1 1 20525 1 1
7145 1 1 24263 1 1 719c 1 1 243ab 1 1 7228 1 1 7235 1 1 7250 1 1 24608 1 1 7280 1 1 7295 1 1
24735 1 1 24814 1 1 737a 1 1 738b 1 1 3eac 1 1 73a5 1 1 3eb8 1 1 3eb8 1 1 7447 1 1 745c 1 1
7471 1 1 7485 1 1 74ca 1 1 3f1b 1 1 7524 1 1 24c36 1 1 753e 1 1 24c92 1 1 7570 1 1 2219f 1 1
7610 1 1 24fa1 1 1 24fb8 1 1 25044 1 1 3ffc 1 1 4008 1 1 76f4 1 1 250f3 1 1 250f2 1 1 25119
1 1 25133 1 2 771e 2 1 771f 1 1 774a 1 1 4039 1 1 778b 1 1 4046 1 1 4096 1 1 2541d 1 1 784e
1 1 788c 1 1 78cc 1 1 40e3 1 1 25626 1 1 7956 1 1 2569a 1 1 256c5 1 1 798f 1 1 79eb 1 1 412f
1 1 7a40 1 1 7a4a 1 1 7a4f 1 1 2597c 1 1 25aa7 1 1 25aa7 1 1 7aee 1 1 4202 1 1 25bab 1 1
7bc6 1 1 7bc9 1 1 4227 1 1 25c80 1 1 7cd2 1 1 42a0 1 1 7ce8 1 1 7ce3 1 1 7d00 1 1 25f86 1 1
7d63 1 1 4301 1 1 7dc7 1 1 7e02 1 1 7e45 1 1 4334 1 1 26228 1 1 26247 1 1 4359 1 1 262d9 1 1
7f7a 1 1 2633e 1 1 7f95 1 1 7ffa 1 1 8005 1 1 264da 1 1 26523 1 1 8060 1 1 265a8 1 1 8070 1
1 2335f 1 1 43d5 1 1 80b2 1 1 8103 1 1 440b 1 1 813e 1 1 5ab5 1 1 267a7 1 1 267b5 1 1 23393
1 1 2339c 1 1 8201 1 1 8204 1 1 8f9e 1 1 446b 1 1 8291 1 1 828b 1 1 829d 1 1 52b3 1 1 82b1 1
1 82b3 1 1 82bd 1 1 82e6 1 1 26b3c 1 1 82e5 1 1 831d 1 1 8363 1 1 83ad 1 1 8323 1 1 83bd 1 1
83e7 1 1 8457 1 1 8353 1 1 83ca 1 1 83cc 1 1 83dc 1 1 26c36 1 1 26d6b 1 1 26cd5 1 1 452b 1 1
84f1 1 1 84f3 1 1 8516 1 1 273ca 1 1 8564 1 1 26f2c 1 1 455d 1 1 4561 1 1 26fb1 1 1 270d2 1
1 456b 1 1 8650 1 1 865c 1 1 8667 1 1 8669 1 1 86a9 1 1 8688 1 1 870e 1 1 86e2 1 1 8779 1 1
8728 1 1 876b 1 1 8786 1 1 45d7 1 1 87e1 1 1 8801 1 1 45f9 1 1 8860 1 1 8863 1 1 27667 1 1
88d7 1 1 88de 1 1 4635 1 1 88fa 1 1 34bb 1 1 278ae 1 1 27966 1 1 46be 1 1 46c7 1 1 8aa0 1 1
8aed 1 1 8b8a 1 1 8c55 1 1 27ca8 1 1 8cab 1 1 8cc1 1 1 8d1b 1 1 8d77 1 1 27f2f 1 1 20804 1 1
8dcb 1 1 8dbc 1 1 8df0 1 1 208de 1 1 8ed4 1 1 8f38 1 1 285d2 1 1 285ed 1 1 9094 1 1 90f1 1 1
9111 1 1 2872e 1 1 911b 1 1 9238 1 2 92d7 2 1 927c 1 1 93f9 1 1 9415 1 1 28bfa 1 1 958b 1 1
4995 1 1 95b7 1 1 28d77 1 1 49e6 1 1 96c3 1 1 5db2 1 1 9723 1 1 29145 1 1 2921a 1 1 4a6e 1 1
4a76 1 1 97e0 1 1 2940a 1 1 4ab2 1 1 29496 1 1 980b 1 1 980b 1 1 9829 1 1 295b6 1 1 98e2 1 1
4b33 1 1 9929 1 1 99a7 1 1 99c2 1 1 99fe 1 1 4bce 1 1 29b30 1 1 9b12 1 1 9c40 1 1 9cfd 1 1
4cce 1 1 4ced 1 1 9d67 1 1 2a0ce 1 1 4cf8 1 1 2a105 1 1 2a20e 1 1 2a291 1 1 9ebb 1 1 4d56 1
1 9ef9 1 1 9efe 1 1 9f05 1 1 9f0f 1 1 9f16 1 1 9f3b 1 1 2a600"

/-- Characters that stand for several: distance, how many, the characters. -/
def multipleText : String :=
  "c0 2 41 300 1 2 41 301 1 2 41 302 1 2 41 303 1 2 41 308 1 2 41 30a 2 2 43 327 1 2 45 300 1 2
45 301 1 2 45 302 1 2 45 308 1 2 49 300 1 2 49 301 1 2 49 302 1 2 49 308 2 2 4e 303 1 2 4f
300 1 2 4f 301 1 2 4f 302 1 2 4f 303 1 2 4f 308 3 2 55 300 1 2 55 301 1 2 55 302 1 2 55 308
1 2 59 301 3 2 61 300 1 2 61 301 1 2 61 302 1 2 61 303 1 2 61 308 1 2 61 30a 2 2 63 327 1 2
65 300 1 2 65 301 1 2 65 302 1 2 65 308 1 2 69 300 1 2 69 301 1 2 69 302 1 2 69 308 2 2 6e
303 1 2 6f 300 1 2 6f 301 1 2 6f 302 1 2 6f 303 1 2 6f 308 3 2 75 300 1 2 75 301 1 2 75 302
1 2 75 308 1 2 79 301 2 2 79 308 1 2 41 304 1 2 61 304 1 2 41 306 1 2 61 306 1 2 41 328 1 2
61 328 1 2 43 301 1 2 63 301 1 2 43 302 1 2 63 302 1 2 43 307 1 2 63 307 1 2 43 30c 1 2 63
30c 1 2 44 30c 1 2 64 30c 3 2 45 304 1 2 65 304 1 2 45 306 1 2 65 306 1 2 45 307 1 2 65 307
1 2 45 328 1 2 65 328 1 2 45 30c 1 2 65 30c 1 2 47 302 1 2 67 302 1 2 47 306 1 2 67 306 1 2
47 307 1 2 67 307 1 2 47 327 1 2 67 327 1 2 48 302 1 2 68 302 3 2 49 303 1 2 69 303 1 2 49
304 1 2 69 304 1 2 49 306 1 2 69 306 1 2 49 328 1 2 69 328 1 2 49 307 2 2 49 4a 1 2 69 6a 1
2 4a 302 1 2 6a 302 1 2 4b 327 1 2 6b 327 2 2 4c 301 1 2 6c 301 1 2 4c 327 1 2 6c 327 1 2 4c
30c 1 2 6c 30c 1 2 4c b7 1 2 6c b7 3 2 4e 301 1 2 6e 301 1 2 4e 327 1 2 6e 327 1 2 4e 30c 1
2 6e 30c 1 2 2bc 6e 3 2 4f 304 1 2 6f 304 1 2 4f 306 1 2 6f 306 1 2 4f 30b 1 2 6f 30b 3 2 52
301 1 2 72 301 1 2 52 327 1 2 72 327 1 2 52 30c 1 2 72 30c 1 2 53 301 1 2 73 301 1 2 53 302
1 2 73 302 1 2 53 327 1 2 73 327 1 2 53 30c 1 2 73 30c 1 2 54 327 1 2 74 327 1 2 54 30c 1 2
74 30c 3 2 55 303 1 2 75 303 1 2 55 304 1 2 75 304 1 2 55 306 1 2 75 306 1 2 55 30a 1 2 75
30a 1 2 55 30b 1 2 75 30b 1 2 55 328 1 2 75 328 1 2 57 302 1 2 77 302 1 2 59 302 1 2 79 302
1 2 59 308 1 2 5a 301 1 2 7a 301 1 2 5a 307 1 2 7a 307 1 2 5a 30c 1 2 7a 30c 22 2 4f 31b 1 2
6f 31b e 2 55 31b 1 2 75 31b 14 3 44 5a 30c 1 3 44 7a 30c 1 3 64 7a 30c 1 2 4c 4a 1 2 4c 6a
1 2 6c 6a 1 2 4e 4a 1 2 4e 6a 1 2 6e 6a 1 2 41 30c 1 2 61 30c 1 2 49 30c 1 2 69 30c 1 2 4f
30c 1 2 6f 30c 1 2 55 30c 1 2 75 30c 1 3 55 308 304 1 3 75 308 304 1 3 55 308 301 1 3 75 308
301 1 3 55 308 30c 1 3 75 308 30c 1 3 55 308 300 1 3 75 308 300 2 3 41 308 304 1 3 61 308
304 1 3 41 307 304 1 3 61 307 304 1 2 c6 304 1 2 e6 304 3 2 47 30c 1 2 67 30c 1 2 4b 30c 1 2
6b 30c 1 2 4f 328 1 2 6f 328 1 3 4f 328 304 1 3 6f 328 304 1 2 1b7 30c 1 2 292 30c 1 2 6a
30c 1 2 44 5a 1 2 44 7a 1 2 64 7a 1 2 47 301 1 2 67 301 3 2 4e 300 1 2 6e 300 1 3 41 30a 301
1 3 61 30a 301 1 2 c6 301 1 2 e6 301 1 2 d8 301 1 2 f8 301 1 2 41 30f 1 2 61 30f 1 2 41 311
1 2 61 311 1 2 45 30f 1 2 65 30f 1 2 45 311 1 2 65 311 1 2 49 30f 1 2 69 30f 1 2 49 311 1 2
69 311 1 2 4f 30f 1 2 6f 30f 1 2 4f 311 1 2 6f 311 1 2 52 30f 1 2 72 30f 1 2 52 311 1 2 72
311 1 2 55 30f 1 2 75 30f 1 2 55 311 1 2 75 311 1 2 53 326 1 2 73 326 1 2 54 326 1 2 74 326
3 2 48 30c 1 2 68 30c 7 2 41 307 1 2 61 307 1 2 45 327 1 2 65 327 1 3 4f 308 304 1 3 6f 308
304 1 3 4f 303 304 1 3 6f 303 304 1 2 4f 307 1 2 6f 307 1 3 4f 307 304 1 3 6f 307 304 1 2 59
304 1 2 79 304 111 2 308 301 42 2 391 301 2 2 395 301 1 2 397 301 1 2 399 301 2 2 39f 301 2
2 3a5 301 1 2 3a9 301 1 3 3b9 308 301 1a 2 399 308 1 2 3a5 308 1 2 3b1 301 1 2 3b5 301 1 2
3b7 301 1 2 3b9 301 1 3 3c5 308 301 1a 2 3b9 308 1 2 3c5 308 1 2 3bf 301 1 2 3c5 301 1 2 3c9
301 5 2 3a5 301 1 2 3a5 308 2c 2 415 300 1 2 415 308 2 2 413 301 4 2 406 308 5 2 41a 301 1 2
418 300 1 2 423 306 b 2 418 306 20 2 438 306 17 2 435 300 1 2 435 308 2 2 433 301 4 2 456
308 5 2 43a 301 1 2 438 300 1 2 443 306 18 2 474 30f 1 2 475 30f 4a 2 416 306 1 2 436 306 e
2 410 306 1 2 430 306 1 2 410 308 1 2 430 308 3 2 415 306 1 2 435 306 3 2 4d8 308 1 2 4d9
308 1 2 416 308 1 2 436 308 1 2 417 308 1 2 437 308 3 2 418 304 1 2 438 304 1 2 418 308 1 2
438 308 1 2 41e 308 1 2 43e 308 3 2 4e8 308 1 2 4e9 308 1 2 42d 308 1 2 44d 308 1 2 423 304
1 2 443 304 1 2 423 308 1 2 443 308 1 2 423 30b 1 2 443 30b 1 2 427 308 1 2 447 308 3 2 42b
308 1 2 44b 308 8e 2 565 582 9b 2 627 653 1 2 627 654 1 2 648 654 1 2 627 655 1 2 64a 654 4f
2 627 674 1 2 648 674 1 2 6c7 674 1 2 64a 674 48 2 6d5 654 2 2 6c1 654 11 2 6d2 654 256 2
928 93c 8 2 930 93c 3 2 933 93c 24 2 915 93c 1 2 916 93c 1 2 917 93c 1 2 91c 93c 1 2 921 93c
1 2 922 93c 1 2 92b 93c 1 2 92f 93c 6c 2 9c7 9be 1 2 9c7 9d7 10 2 9a1 9bc 1 2 9a2 9bc 2 2
9af 9bc 54 2 a32 a3c 3 2 a38 a3c 23 2 a16 a3c 1 2 a17 a3c 1 2 a1c a3c 3 2 a2b a3c ea 2 b47
b56 3 2 b47 b3e 1 2 b47 b57 10 2 b21 b3c 1 2 b22 b3c 37 2 b92 bd7 36 2 bc6 bbe 1 2 bc7 bbe 1
2 bc6 bd7 7c 2 c46 c56 78 2 cbf cd5 7 2 cc6 cd5 1 2 cc6 cd6 2 2 cc6 cc2 1 3 cc6 cc2 cd5 7f 2
d46 d3e 1 2 d47 d3e 1 2 d46 d57 8e 2 dd9 dca 2 2 dd9 dcf 1 3 dd9 dcf dca 1 2 dd9 ddf 55 2
e4d e32 80 2 ecd eb2 29 2 eab e99 1 2 eab ea1 66 2 f42 fb7 a 2 f4c fb7 5 2 f51 fb7 5 2 f56
fb7 5 2 f5b fb7 d 2 f40 fb5 a 2 f71 f72 2 2 f71 f74 1 2 fb2 f80 1 3 fb2 f71 f80 1 2 fb3 f80
1 3 fb3 f71 f80 8 2 f71 f80 12 2 f92 fb7 a 2 f9c fb7 5 2 fa1 fb7 5 2 fa6 fb7 5 2 fab fb7 d 2
f90 fb5 6d 2 1025 102e ae0 2 1b05 1b35 2 2 1b07 1b35 2 2 1b09 1b35 2 2 1b0b 1b35 2 2 1b0d
1b35 4 2 1b11 1b35 29 2 1b3a 1b35 2 2 1b3c 1b35 3 2 1b3e 1b35 1 2 1b3f 1b35 2 2 1b42 1b35
2bd 2 41 325 1 2 61 325 1 2 42 307 1 2 62 307 1 2 42 323 1 2 62 323 1 2 42 331 1 2 62 331 1
3 43 327 301 1 3 63 327 301 1 2 44 307 1 2 64 307 1 2 44 323 1 2 64 323 1 2 44 331 1 2 64
331 1 2 44 327 1 2 64 327 1 2 44 32d 1 2 64 32d 1 3 45 304 300 1 3 65 304 300 1 3 45 304 301
1 3 65 304 301 1 2 45 32d 1 2 65 32d 1 2 45 330 1 2 65 330 1 3 45 327 306 1 3 65 327 306 1 2
46 307 1 2 66 307 1 2 47 304 1 2 67 304 1 2 48 307 1 2 68 307 1 2 48 323 1 2 68 323 1 2 48
308 1 2 68 308 1 2 48 327 1 2 68 327 1 2 48 32e 1 2 68 32e 1 2 49 330 1 2 69 330 1 3 49 308
301 1 3 69 308 301 1 2 4b 301 1 2 6b 301 1 2 4b 323 1 2 6b 323 1 2 4b 331 1 2 6b 331 1 2 4c
323 1 2 6c 323 1 3 4c 323 304 1 3 6c 323 304 1 2 4c 331 1 2 6c 331 1 2 4c 32d 1 2 6c 32d 1 2
4d 301 1 2 6d 301 1 2 4d 307 1 2 6d 307 1 2 4d 323 1 2 6d 323 1 2 4e 307 1 2 6e 307 1 2 4e
323 1 2 6e 323 1 2 4e 331 1 2 6e 331 1 2 4e 32d 1 2 6e 32d 1 3 4f 303 301 1 3 6f 303 301 1 3
4f 303 308 1 3 6f 303 308 1 3 4f 304 300 1 3 6f 304 300 1 3 4f 304 301 1 3 6f 304 301 1 2 50
301 1 2 70 301 1 2 50 307 1 2 70 307 1 2 52 307 1 2 72 307 1 2 52 323 1 2 72 323 1 3 52 323
304 1 3 72 323 304 1 2 52 331 1 2 72 331 1 2 53 307 1 2 73 307 1 2 53 323 1 2 73 323 1 3 53
301 307 1 3 73 301 307 1 3 53 30c 307 1 3 73 30c 307 1 3 53 323 307 1 3 73 323 307 1 2 54
307 1 2 74 307 1 2 54 323 1 2 74 323 1 2 54 331 1 2 74 331 1 2 54 32d 1 2 74 32d 1 2 55 324
1 2 75 324 1 2 55 330 1 2 75 330 1 2 55 32d 1 2 75 32d 1 3 55 303 301 1 3 75 303 301 1 3 55
304 308 1 3 75 304 308 1 2 56 303 1 2 76 303 1 2 56 323 1 2 76 323 1 2 57 300 1 2 77 300 1 2
57 301 1 2 77 301 1 2 57 308 1 2 77 308 1 2 57 307 1 2 77 307 1 2 57 323 1 2 77 323 1 2 58
307 1 2 78 307 1 2 58 308 1 2 78 308 1 2 59 307 1 2 79 307 1 2 5a 302 1 2 7a 302 1 2 5a 323
1 2 7a 323 1 2 5a 331 1 2 7a 331 1 2 68 331 1 2 74 308 1 2 77 30a 1 2 79 30a 1 2 61 2be 1 2
73 307 5 2 41 323 1 2 61 323 1 2 41 309 1 2 61 309 1 3 41 302 301 1 3 61 302 301 1 3 41 302
300 1 3 61 302 300 1 3 41 302 309 1 3 61 302 309 1 3 41 302 303 1 3 61 302 303 1 3 41 323
302 1 3 61 323 302 1 3 41 306 301 1 3 61 306 301 1 3 41 306 300 1 3 61 306 300 1 3 41 306
309 1 3 61 306 309 1 3 41 306 303 1 3 61 306 303 1 3 41 323 306 1 3 61 323 306 1 2 45 323 1
2 65 323 1 2 45 309 1 2 65 309 1 2 45 303 1 2 65 303 1 3 45 302 301 1 3 65 302 301 1 3 45
302 300 1 3 65 302 300 1 3 45 302 309 1 3 65 302 309 1 3 45 302 303 1 3 65 302 303 1 3 45
323 302 1 3 65 323 302 1 2 49 309 1 2 69 309 1 2 49 323 1 2 69 323 1 2 4f 323 1 2 6f 323 1 2
4f 309 1 2 6f 309 1 3 4f 302 301 1 3 6f 302 301 1 3 4f 302 300 1 3 6f 302 300 1 3 4f 302 309
1 3 6f 302 309 1 3 4f 302 303 1 3 6f 302 303 1 3 4f 323 302 1 3 6f 323 302 1 3 4f 31b 301 1
3 6f 31b 301 1 3 4f 31b 300 1 3 6f 31b 300 1 3 4f 31b 309 1 3 6f 31b 309 1 3 4f 31b 303 1 3
6f 31b 303 1 3 4f 31b 323 1 3 6f 31b 323 1 2 55 323 1 2 75 323 1 2 55 309 1 2 75 309 1 3 55
31b 301 1 3 75 31b 301 1 3 55 31b 300 1 3 75 31b 300 1 3 55 31b 309 1 3 75 31b 309 1 3 55
31b 303 1 3 75 31b 303 1 3 55 31b 323 1 3 75 31b 323 1 2 59 300 1 2 79 300 1 2 59 323 1 2 79
323 1 2 59 309 1 2 79 309 1 2 59 303 1 2 79 303 7 2 3b1 313 1 2 3b1 314 1 3 3b1 313 300 1 3
3b1 314 300 1 3 3b1 313 301 1 3 3b1 314 301 1 3 3b1 313 342 1 3 3b1 314 342 1 2 391 313 1 2
391 314 1 3 391 313 300 1 3 391 314 300 1 3 391 313 301 1 3 391 314 301 1 3 391 313 342 1 3
391 314 342 1 2 3b5 313 1 2 3b5 314 1 3 3b5 313 300 1 3 3b5 314 300 1 3 3b5 313 301 1 3 3b5
314 301 3 2 395 313 1 2 395 314 1 3 395 313 300 1 3 395 314 300 1 3 395 313 301 1 3 395 314
301 3 2 3b7 313 1 2 3b7 314 1 3 3b7 313 300 1 3 3b7 314 300 1 3 3b7 313 301 1 3 3b7 314 301
1 3 3b7 313 342 1 3 3b7 314 342 1 2 397 313 1 2 397 314 1 3 397 313 300 1 3 397 314 300 1 3
397 313 301 1 3 397 314 301 1 3 397 313 342 1 3 397 314 342 1 2 3b9 313 1 2 3b9 314 1 3 3b9
313 300 1 3 3b9 314 300 1 3 3b9 313 301 1 3 3b9 314 301 1 3 3b9 313 342 1 3 3b9 314 342 1 2
399 313 1 2 399 314 1 3 399 313 300 1 3 399 314 300 1 3 399 313 301 1 3 399 314 301 1 3 399
313 342 1 3 399 314 342 1 2 3bf 313 1 2 3bf 314 1 3 3bf 313 300 1 3 3bf 314 300 1 3 3bf 313
301 1 3 3bf 314 301 3 2 39f 313 1 2 39f 314 1 3 39f 313 300 1 3 39f 314 300 1 3 39f 313 301
1 3 39f 314 301 3 2 3c5 313 1 2 3c5 314 1 3 3c5 313 300 1 3 3c5 314 300 1 3 3c5 313 301 1 3
3c5 314 301 1 3 3c5 313 342 1 3 3c5 314 342 2 2 3a5 314 2 3 3a5 314 300 2 3 3a5 314 301 2 3
3a5 314 342 1 2 3c9 313 1 2 3c9 314 1 3 3c9 313 300 1 3 3c9 314 300 1 3 3c9 313 301 1 3 3c9
314 301 1 3 3c9 313 342 1 3 3c9 314 342 1 2 3a9 313 1 2 3a9 314 1 3 3a9 313 300 1 3 3a9 314
300 1 3 3a9 313 301 1 3 3a9 314 301 1 3 3a9 313 342 1 3 3a9 314 342 1 2 3b1 300 1 2 3b1 301
1 2 3b5 300 1 2 3b5 301 1 2 3b7 300 1 2 3b7 301 1 2 3b9 300 1 2 3b9 301 1 2 3bf 300 1 2 3bf
301 1 2 3c5 300 1 2 3c5 301 1 2 3c9 300 1 2 3c9 301 3 3 3b1 313 345 1 3 3b1 314 345 1 4 3b1
313 300 345 1 4 3b1 314 300 345 1 4 3b1 313 301 345 1 4 3b1 314 301 345 1 4 3b1 313 342 345
1 4 3b1 314 342 345 1 3 391 313 345 1 3 391 314 345 1 4 391 313 300 345 1 4 391 314 300 345
1 4 391 313 301 345 1 4 391 314 301 345 1 4 391 313 342 345 1 4 391 314 342 345 1 3 3b7 313
345 1 3 3b7 314 345 1 4 3b7 313 300 345 1 4 3b7 314 300 345 1 4 3b7 313 301 345 1 4 3b7 314
301 345 1 4 3b7 313 342 345 1 4 3b7 314 342 345 1 3 397 313 345 1 3 397 314 345 1 4 397 313
300 345 1 4 397 314 300 345 1 4 397 313 301 345 1 4 397 314 301 345 1 4 397 313 342 345 1 4
397 314 342 345 1 3 3c9 313 345 1 3 3c9 314 345 1 4 3c9 313 300 345 1 4 3c9 314 300 345 1 4
3c9 313 301 345 1 4 3c9 314 301 345 1 4 3c9 313 342 345 1 4 3c9 314 342 345 1 3 3a9 313 345
1 3 3a9 314 345 1 4 3a9 313 300 345 1 4 3a9 314 300 345 1 4 3a9 313 301 345 1 4 3a9 314 301
345 1 4 3a9 313 342 345 1 4 3a9 314 342 345 1 2 3b1 306 1 2 3b1 304 1 3 3b1 300 345 1 2 3b1
345 1 3 3b1 301 345 2 2 3b1 342 1 3 3b1 342 345 1 2 391 306 1 2 391 304 1 2 391 300 1 2 391
301 1 2 391 345 6 3 3b7 300 345 1 2 3b7 345 1 3 3b7 301 345 2 2 3b7 342 1 3 3b7 342 345 1 2
395 300 1 2 395 301 1 2 397 300 1 2 397 301 1 2 397 345 4 2 3b9 306 1 2 3b9 304 1 3 3b9 308
300 1 3 3b9 308 301 3 2 3b9 342 1 3 3b9 308 342 1 2 399 306 1 2 399 304 1 2 399 300 1 2 399
301 5 2 3c5 306 1 2 3c5 304 1 3 3c5 308 300 1 3 3c5 308 301 1 2 3c1 313 1 2 3c1 314 1 2 3c5
342 1 3 3c5 308 342 1 2 3a5 306 1 2 3a5 304 1 2 3a5 300 1 2 3a5 301 1 2 3a1 314 6 3 3c9 300
345 1 2 3c9 345 1 3 3c9 301 345 2 2 3c9 342 1 3 3c9 342 345 1 2 39f 300 1 2 39f 301 1 2 3a9
300 1 2 3a9 301 1 2 3a9 345 12f 2 41 30a 36 2 49 49 1 3 49 49 49 1 2 49 56 2 2 56 49 1 3 56
49 49 1 4 56 49 49 49 1 2 49 58 2 2 58 49 1 3 58 49 49 6 2 69 69 1 3 69 69 69 1 2 69 76 2 2
76 69 1 3 76 69 69 1 4 76 69 69 69 1 2 69 78 2 2 78 69 1 3 78 69 69 ed1 2 304b 3099 2 2 304d
3099 2 2 304f 3099 2 2 3051 3099 2 2 3053 3099 2 2 3055 3099 2 2 3057 3099 2 2 3059 3099 2 2
305b 3099 2 2 305d 3099 2 2 305f 3099 2 2 3061 3099 3 2 3064 3099 2 2 3066 3099 2 2 3068
3099 7 2 306f 3099 1 2 306f 309a 2 2 3072 3099 1 2 3072 309a 2 2 3075 3099 1 2 3075 309a 2 2
3078 3099 1 2 3078 309a 2 2 307b 3099 1 2 307b 309a 17 2 3046 3099 a 2 309d 3099 1 2 3088
308a d 2 30ab 3099 2 2 30ad 3099 2 2 30af 3099 2 2 30b1 3099 2 2 30b3 3099 2 2 30b5 3099 2 2
30b7 3099 2 2 30b9 3099 2 2 30bb 3099 2 2 30bd 3099 2 2 30bf 3099 2 2 30c1 3099 3 2 30c4
3099 2 2 30c6 3099 2 2 30c8 3099 7 2 30cf 3099 1 2 30cf 309a 2 2 30d2 3099 1 2 30d2 309a 2 2
30d5 3099 1 2 30d5 309a 2 2 30d8 3099 1 2 30d8 309a 2 2 30db 3099 1 2 30db 309a 17 2 30a6
3099 3 2 30ef 3099 1 2 30f0 3099 1 2 30f1 3099 1 2 30f2 3099 4 2 30fd 3099 1 2 30b3 30c8
ca01 2 66 66 1 2 66 69 1 2 66 6c 1 3 66 66 69 1 3 66 66 6c 1 2 73 74 1 2 73 74 d 2 574 576 1
2 574 565 1 2 574 56b 1 2 57e 576 1 2 574 56d 6 2 5d9 5b4 2 2 5f2 5b7 b 2 5e9 5c1 1 2 5e9
5c2 1 3 5e9 5bc 5c1 1 3 5e9 5bc 5c2 1 2 5d0 5b7 1 2 5d0 5b8 1 2 5d0 5bc 1 2 5d1 5bc 1 2 5d2
5bc 1 2 5d3 5bc 1 2 5d4 5bc 1 2 5d5 5bc 1 2 5d6 5bc 2 2 5d8 5bc 1 2 5d9 5bc 1 2 5da 5bc 1 2
5db 5bc 1 2 5dc 5bc 2 2 5de 5bc 2 2 5e0 5bc 1 2 5e1 5bc 2 2 5e3 5bc 1 2 5e4 5bc 2 2 5e6 5bc
1 2 5e7 5bc 1 2 5e8 5bc 1 2 5e9 5bc 1 2 5ea 5bc 1 2 5d5 5b9 1 2 5d1 5bf 1 2 5db 5bf 1 2 5e4
5bf 1 2 5d0 5dc 55 2 6d5 654 1 2 6d5 654 b 2 6d2 654 1 2 6d2 654 2c 2 6c7 674 d 3 64a 654
627 1 3 64a 654 627 1 3 64a 654 6d5 1 3 64a 654 6d5 1 3 64a 654 648 1 3 64a 654 648 1 3 64a
654 6c7 1 3 64a 654 6c7 1 3 64a 654 6c6 1 3 64a 654 6c6 1 3 64a 654 6c8 1 3 64a 654 6c8 1 3
64a 654 6d0 1 3 64a 654 6d0 1 3 64a 654 6d0 1 3 64a 654 649 1 3 64a 654 649 1 3 64a 654 649
5 3 64a 654 62c 1 3 64a 654 62d 1 3 64a 654 645 1 3 64a 654 649 1 3 64a 654 64a 1 2 628 62c
1 2 628 62d 1 2 628 62e 1 2 628 645 1 2 628 649 1 2 628 64a 1 2 62a 62c 1 2 62a 62d 1 2 62a
62e 1 2 62a 645 1 2 62a 649 1 2 62a 64a 1 2 62b 62c 1 2 62b 645 1 2 62b 649 1 2 62b 64a 1 2
62c 62d 1 2 62c 645 1 2 62d 62c 1 2 62d 645 1 2 62e 62c 1 2 62e 62d 1 2 62e 645 1 2 633 62c
1 2 633 62d 1 2 633 62e 1 2 633 645 1 2 635 62d 1 2 635 645 1 2 636 62c 1 2 636 62d 1 2 636
62e 1 2 636 645 1 2 637 62d 1 2 637 645 1 2 638 645 1 2 639 62c 1 2 639 645 1 2 63a 62c 1 2
63a 645 1 2 641 62c 1 2 641 62d 1 2 641 62e 1 2 641 645 1 2 641 649 1 2 641 64a 1 2 642 62d
1 2 642 645 1 2 642 649 1 2 642 64a 1 2 643 627 1 2 643 62c 1 2 643 62d 1 2 643 62e 1 2 643
644 1 2 643 645 1 2 643 649 1 2 643 64a 1 2 644 62c 1 2 644 62d 1 2 644 62e 1 2 644 645 1 2
644 649 1 2 644 64a 1 2 645 62c 1 2 645 62d 1 2 645 62e 1 2 645 645 1 2 645 649 1 2 645 64a
1 2 646 62c 1 2 646 62d 1 2 646 62e 1 2 646 645 1 2 646 649 1 2 646 64a 1 2 647 62c 1 2 647
645 1 2 647 649 1 2 647 64a 1 2 64a 62c 1 2 64a 62d 1 2 64a 62e 1 2 64a 645 1 2 64a 649 1 2
64a 64a 1 2 630 670 1 2 631 670 1 2 649 670 7 3 64a 654 631 1 3 64a 654 632 1 3 64a 654 645
1 3 64a 654 646 1 3 64a 654 649 1 3 64a 654 64a 1 2 628 631 1 2 628 632 1 2 628 645 1 2 628
646 1 2 628 649 1 2 628 64a 1 2 62a 631 1 2 62a 632 1 2 62a 645 1 2 62a 646 1 2 62a 649 1 2
62a 64a 1 2 62b 631 1 2 62b 632 1 2 62b 645 1 2 62b 646 1 2 62b 649 1 2 62b 64a 1 2 641 649
1 2 641 64a 1 2 642 649 1 2 642 64a 1 2 643 627 1 2 643 644 1 2 643 645 1 2 643 649 1 2 643
64a 1 2 644 645 1 2 644 649 1 2 644 64a 1 2 645 627 1 2 645 645 1 2 646 631 1 2 646 632 1 2
646 645 1 2 646 646 1 2 646 649 1 2 646 64a 1 2 649 670 1 2 64a 631 1 2 64a 632 1 2 64a 645
1 2 64a 646 1 2 64a 649 1 2 64a 64a 1 3 64a 654 62c 1 3 64a 654 62d 1 3 64a 654 62e 1 3 64a
654 645 1 3 64a 654 647 1 2 628 62c 1 2 628 62d 1 2 628 62e 1 2 628 645 1 2 628 647 1 2 62a
62c 1 2 62a 62d 1 2 62a 62e 1 2 62a 645 1 2 62a 647 1 2 62b 645 1 2 62c 62d 1 2 62c 645 1 2
62d 62c 1 2 62d 645 1 2 62e 62c 1 2 62e 645 1 2 633 62c 1 2 633 62d 1 2 633 62e 1 2 633 645
1 2 635 62d 1 2 635 62e 1 2 635 645 1 2 636 62c 1 2 636 62d 1 2 636 62e 1 2 636 645 1 2 637
62d 1 2 638 645 1 2 639 62c 1 2 639 645 1 2 63a 62c 1 2 63a 645 1 2 641 62c 1 2 641 62d 1 2
641 62e 1 2 641 645 1 2 642 62d 1 2 642 645 1 2 643 62c 1 2 643 62d 1 2 643 62e 1 2 643 644
1 2 643 645 1 2 644 62c 1 2 644 62d 1 2 644 62e 1 2 644 645 1 2 644 647 1 2 645 62c 1 2 645
62d 1 2 645 62e 1 2 645 645 1 2 646 62c 1 2 646 62d 1 2 646 62e 1 2 646 645 1 2 646 647 1 2
647 62c 1 2 647 645 1 2 647 670 1 2 64a 62c 1 2 64a 62d 1 2 64a 62e 1 2 64a 645 1 2 64a 647
1 3 64a 654 645 1 3 64a 654 647 1 2 628 645 1 2 628 647 1 2 62a 645 1 2 62a 647 1 2 62b 645
1 2 62b 647 1 2 633 645 1 2 633 647 1 2 634 645 1 2 634 647 1 2 643 644 1 2 643 645 1 2 644
645 1 2 646 645 1 2 646 647 1 2 64a 645 1 2 64a 647 1 3 640 64e 651 1 3 640 64f 651 1 3 640
650 651 1 2 637 649 1 2 637 64a 1 2 639 649 1 2 639 64a 1 2 63a 649 1 2 63a 64a 1 2 633 649
1 2 633 64a 1 2 634 649 1 2 634 64a 1 2 62d 649 1 2 62d 64a 1 2 62c 649 1 2 62c 64a 1 2 62e
649 1 2 62e 64a 1 2 635 649 1 2 635 64a 1 2 636 649 1 2 636 64a 1 2 634 62c 1 2 634 62d 1 2
634 62e 1 2 634 645 1 2 634 631 1 2 633 631 1 2 635 631 1 2 636 631 1 2 637 649 1 2 637 64a
1 2 639 649 1 2 639 64a 1 2 63a 649 1 2 63a 64a 1 2 633 649 1 2 633 64a 1 2 634 649 1 2 634
64a 1 2 62d 649 1 2 62d 64a 1 2 62c 649 1 2 62c 64a 1 2 62e 649 1 2 62e 64a 1 2 635 649 1 2
635 64a 1 2 636 649 1 2 636 64a 1 2 634 62c 1 2 634 62d 1 2 634 62e 1 2 634 645 1 2 634 631
1 2 633 631 1 2 635 631 1 2 636 631 1 2 634 62c 1 2 634 62d 1 2 634 62e 1 2 634 645 1 2 633
647 1 2 634 647 1 2 637 645 1 2 633 62c 1 2 633 62d 1 2 633 62e 1 2 634 62c 1 2 634 62d 1 2
634 62e 1 2 637 645 1 2 638 645 1 2 627 64b 1 2 627 64b 13 3 62a 62c 645 1 3 62a 62d 62c 1 3
62a 62d 62c 1 3 62a 62d 645 1 3 62a 62e 645 1 3 62a 645 62c 1 3 62a 645 62d 1 3 62a 645 62e
1 3 62c 645 62d 1 3 62c 645 62d 1 3 62d 645 64a 1 3 62d 645 649 1 3 633 62d 62c 1 3 633 62c
62d 1 3 633 62c 649 1 3 633 645 62d 1 3 633 645 62d 1 3 633 645 62c 1 3 633 645 645 1 3 633
645 645 1 3 635 62d 62d 1 3 635 62d 62d 1 3 635 645 645 1 3 634 62d 645 1 3 634 62d 645 1 3
634 62c 64a 1 3 634 645 62e 1 3 634 645 62e 1 3 634 645 645 1 3 634 645 645 1 3 636 62d 649
1 3 636 62e 645 1 3 636 62e 645 1 3 637 645 62d 1 3 637 645 62d 1 3 637 645 645 1 3 637 645
64a 1 3 639 62c 645 1 3 639 645 645 1 3 639 645 645 1 3 639 645 649 1 3 63a 645 645 1 3 63a
645 64a 1 3 63a 645 649 1 3 641 62e 645 1 3 641 62e 645 1 3 642 645 62d 1 3 642 645 645 1 3
644 62d 645 1 3 644 62d 64a 1 3 644 62d 649 1 3 644 62c 62c 1 3 644 62c 62c 1 3 644 62e 645
1 3 644 62e 645 1 3 644 645 62d 1 3 644 645 62d 1 3 645 62d 62c 1 3 645 62d 645 1 3 645 62d
64a 1 3 645 62c 62d 1 3 645 62c 645 1 3 645 62e 62c 1 3 645 62e 645 3 3 645 62c 62e 1 3 647
645 62c 1 3 647 645 645 1 3 646 62d 645 1 3 646 62d 649 1 3 646 62c 645 1 3 646 62c 645 1 3
646 62c 649 1 3 646 645 64a 1 3 646 645 649 1 3 64a 645 645 1 3 64a 645 645 1 3 628 62e 64a
1 3 62a 62c 64a 1 3 62a 62c 649 1 3 62a 62e 64a 1 3 62a 62e 649 1 3 62a 645 64a 1 3 62a 645
649 1 3 62c 645 64a 1 3 62c 62d 649 1 3 62c 645 649 1 3 633 62e 649 1 3 635 62d 64a 1 3 634
62d 64a 1 3 636 62d 64a 1 3 644 62c 64a 1 3 644 645 64a 1 3 64a 62d 64a 1 3 64a 62c 64a 1 3
64a 645 64a 1 3 645 645 64a 1 3 642 645 64a 1 3 646 62d 64a 1 3 642 645 62d 1 3 644 62d 645
1 3 639 645 64a 1 3 643 645 64a 1 3 646 62c 62d 1 3 645 62e 64a 1 3 644 62c 645 1 3 643 645
645 1 3 644 62c 645 1 3 646 62c 62d 1 3 62c 62d 64a 1 3 62d 62c 64a 1 3 645 62c 64a 1 3 641
645 64a 1 3 628 62d 64a 1 3 643 645 645 1 3 639 62c 645 1 3 635 645 645 1 3 633 62e 64a 1 3
646 62c 64a 29 3 635 644 6d2 1 3 642 644 6d2 1 4 627 644 644 647 1 4 627 643 628 631 1 4 645
62d 645 62f 1 4 635 644 639 645 1 4 631 633 648 644 1 4 639 644 64a 647 1 4 648 633 644 645
1 3 635 644 649 78 2 640 64b 6 2 640 64e 2 2 640 64f 2 2 640 650 2 2 640 651 2 2 640 652 2 2
627 653 1 2 627 653 1 2 627 654 1 2 627 654 1 2 648 654 1 2 648 654 1 2 627 655 1 2 627 655
1 2 64a 654 1 2 64a 654 1 2 64a 654 1 2 64a 654 69 3 644 627 653 1 3 644 627 653 1 3 644 627
654 1 3 644 627 654 1 3 644 627 655 1 3 644 627 655 1 2 644 627 1 2 644 627 119e 2 11099
110ba 2 2 1109b 110ba f 2 110a5 110ba 83 2 11131 11127 1 2 11132 11127 21c 2 11347 1133e 1 2
11347 11357 16f 2 114b9 114ba 1 2 114b9 114b0 2 2 114b9 114bd fc 2 115b8 115af 1 2 115b9
115af 37d 2 11935 11930"

/-- Combining classes other than zero: distance, length of the run, class. -/
def classText : String :=
  "300 15 e6 15 1 e8 1 4 dc 4 1 e8 1 1 d8 1 5 dc 5 2 ca 2 4 dc 4 2 ca 2 b dc b 5 1 5 4 dc 4 8
e6 8 1 f0 1 1 e6 1 3 dc 3 3 e6 3 2 dc 3 3 e6 3 4 dc 4 1 e6 1 1 e8 1 2 dc 2 1 e6 1 1 e9 1 2
ea 2 1 e9 1 2 ea 2 1 e9 1 d e6 120 5 e6 10e 1 dc 1 4 e6 4 1 dc 1 3 e6 3 1 de 1 1 dc 1 6 e6 6
6 dc 6 2 e6 2 1 dc 1 2 e6 2 1 de 1 1 e4 1 1 e6 1 1 a 1 1 b 1 1 c 1 1 d 1 1 e 1 1 f 1 1 10 1
1 11 1 1 12 1 2 13 2 1 14 1 1 15 1 1 16 2 1 17 2 1 18 1 1 19 2 1 e6 1 1 dc 2 1 12 49 8 e6 8
1 1e 1 1 1f 1 1 20 31 1 1b 1 1 1c 1 1 1d 1 1 1e 1 1 1f 1 1 20 1 1 21 1 1 22 1 2 e6 2 2 dc 2
5 e6 5 1 dc 1 2 e6 2 1 dc 11 1 23 66 7 e6 9 4 e6 4 1 dc 1 1 e6 3 2 e6 3 1 dc 1 2 e6 2 1 dc
24 1 24 1f 1 e6 1 1 dc 1 2 e6 2 1 dc 1 2 e6 2 3 dc 3 1 e6 1 2 dc 2 1 e6 1 1 dc 1 3 e6 3 1 dc
1 1 e6 1 1 dc 1 1 e6 1 1 dc 1 1 e6 1 1 dc 1 2 e6 a2 7 e6 7 1 dc 1 1 e6 a 1 dc 19 4 e6 5 9 e6
a 3 e6 4 5 e6 30 3 dc 3f 1 e6 1 3 dc 3 4 e6 2e 5 e6 5 5 dc 5 e e6 f 1 dc 1 2 e6 2 1 dc 1 2
e6 2 1 dc 1 3 e6 3 3 dc 3 1 1b 1 1 1c 1 1 1d 1 3 e6 3 1 dc 1 2 e6 2 2 dc 2 5 e6 41 1 7 11 1
9 4 1 e6 1 1 dc 1 2 e6 69 1 7 11 1 9 31 1 e6 3e 1 7 11 1 9 6f 1 7 11 1 9 6f 1 7 11 1 9 80 1
9 6f 1 7 11 1 9 8 1 54 1 1 5b 66 1 7 11 1 9 6e 2 9 12 1 9 7d 1 9 6e 2 67 2 1 9 e 4 6b 70 2
76 2 1 9 e 4 7a 50 2 dc 1d 1 dc 2 1 dc 2 1 d8 38 1 81 1 1 82 2 1 84 6 4 82 6 1 82 2 2 e6 2 1
9 2 2 e6 40 1 dc 71 1 7 2 2 9 54 1 dc 2d0 3 e6 3b7 2 9 20 1 9 9e 1 9 b 1 e6 cc 1 e4 90 1 de
1 1 e6 1 1 dc dc 1 e6 1 1 dc 48 1 9 15 8 e6 a 1 dc 31 5 e6 5 6 dc 6 2 e6 2 1 dc 2 2 dc 2 2
e6 2 2 dc 2 5 e6 5 1 dc 1 4 e6 69 1 7 10 1 9 27 1 e6 1 1 dc 1 7 e6 3d 2 9 3c 1 7 c 2 9 45 1
7 99 3 e6 4 1 1 1 5 dc 5 2 e6 2 4 dc 4 1 e6 2 7 1 b 1 dc 7 1 e6 4 2 e6 c8 2 e6 2 1 dc 1 7 e6
7 1 dc 1 2 e6 2 1 ea 1 1 d6 1 1 dc 1 1 ca 1 25 e6 25 1 e8 1 2 e4 2 1 dc 1 1 da 1 1 e6 1 1 e9
1 1 dc 1 1 e6 1 1 dc 2d1 2 e6 2 2 1 2 4 e6 4 3 1 3 2 e6 6 1 e6 4 2 1 2 1 e6 1 1 dc 1 1 e6 1
2 1 2 4 dc 4 1 e6 bff 3 e6 90 1 9 61 20 e6 24a 1 da 1 1 e4 1 1 e8 1 1 de 1 2 e0 6b 2 8 75d6
1 e6 5 a e6 2a 2 e6 52 2 e6 116 1 9 26 1 9 98 1 9 1c 12 e6 4b 3 dc 28 1 9 60 1 7 d 1 9 f0 1
e6 2 2 e6 2 1 dc 3 2 e6 7 2 e6 3 1 e6 35 1 9 f7 1 9 4f31 1 1a 302 7 e6 7 7 dc 7 2 e6 3cf 1
dc e3 1 dc 96 5 e6 697 1 dc 2 1 e6 29 1 e6 1 1 1 1 1 dc 5 1 9 a6 1 e6 1 1 dc 23e 4 e6 187 2
e6 9b 2 dc 2 3 e6 3 1 dc 1 1 e6 1 4 dc 35 1 e6 1 1 dc 1 1 e6 1 1 dc c1 1 9 2a 1 9 f 1 9 3a 1
9 1 1 7 46 3 e6 33 2 9 40 1 7 4d 1 9 a 1 7 6b 1 9 1 1 7 b3 1 7 1 1 9 51 2 7 12 1 9 19 7 e6 a
5 e6 d2 1 9 4 1 7 18 1 e6 64 1 9 1 1 7 fc 1 9 1 1 7 7f 1 9 77 1 9 1 1 7 74 1 9 10e 1 9 1 1 7
103 2 9 6 1 7 9d 1 9 54 1 9 13 1 9 52 1 9 1a6 1 9 103 1 7 2 2 9 53 1 9 4d59 5 1 40 7 e6 4c0
2 6 4cae 1 1 14c7 2 d8 2 3 1 6 1 e2 1 5 d8 d 8 dc a 5 e6 5 2 dc 20 4 e6 98 3 e6 dbe 7 e6 8
11 e6 13 7 e6 8 2 e6 3 5 e6 10a 7 e6 17e 1 e6 3e 4 e6 5e4 7 dc 74 6 e6 6 1 7"

/-- Pairs that compose: distance of the first, the second, the result. -/
def compositionText : String :=
  "3c 338 226e 1 338 2260 1 338 226f 3 300 c0 0 301 c1 0 302 c2 0 303 c3 0 304 100 0 306 102 0
307 226 0 308 c4 0 309 1ea2 0 30a c5 0 30c 1cd 0 30f 200 0 311 202 0 323 1ea0 0 325 1e00 0
328 104 1 307 1e02 0 323 1e04 0 331 1e06 1 301 106 0 302 108 0 307 10a 0 30c 10c 0 327 c7 1
307 1e0a 0 30c 10e 0 323 1e0c 0 327 1e10 0 32d 1e12 0 331 1e0e 1 300 c8 0 301 c9 0 302 ca 0
303 1ebc 0 304 112 0 306 114 0 307 116 0 308 cb 0 309 1eba 0 30c 11a 0 30f 204 0 311 206 0
323 1eb8 0 327 228 0 328 118 0 32d 1e18 0 330 1e1a 1 307 1e1e 1 301 1f4 0 302 11c 0 304 1e20
0 306 11e 0 307 120 0 30c 1e6 0 327 122 1 302 124 0 307 1e22 0 308 1e26 0 30c 21e 0 323 1e24
0 327 1e28 0 32e 1e2a 1 300 cc 0 301 cd 0 302 ce 0 303 128 0 304 12a 0 306 12c 0 307 130 0
308 cf 0 309 1ec8 0 30c 1cf 0 30f 208 0 311 20a 0 323 1eca 0 328 12e 0 330 1e2c 1 302 134 1
301 1e30 0 30c 1e8 0 323 1e32 0 327 136 0 331 1e34 1 301 139 0 30c 13d 0 323 1e36 0 327 13b
0 32d 1e3c 0 331 1e3a 1 301 1e3e 0 307 1e40 0 323 1e42 1 300 1f8 0 301 143 0 303 d1 0 307
1e44 0 30c 147 0 323 1e46 0 327 145 0 32d 1e4a 0 331 1e48 1 300 d2 0 301 d3 0 302 d4 0 303
d5 0 304 14c 0 306 14e 0 307 22e 0 308 d6 0 309 1ece 0 30b 150 0 30c 1d1 0 30f 20c 0 311 20e
0 31b 1a0 0 323 1ecc 0 328 1ea 1 301 1e54 0 307 1e56 2 301 154 0 307 1e58 0 30c 158 0 30f
210 0 311 212 0 323 1e5a 0 327 156 0 331 1e5e 1 301 15a 0 302 15c 0 307 1e60 0 30c 160 0 323
1e62 0 326 218 0 327 15e 1 307 1e6a 0 30c 164 0 323 1e6c 0 326 21a 0 327 162 0 32d 1e70 0
331 1e6e 1 300 d9 0 301 da 0 302 db 0 303 168 0 304 16a 0 306 16c 0 308 dc 0 309 1ee6 0 30a
16e 0 30b 170 0 30c 1d3 0 30f 214 0 311 216 0 31b 1af 0 323 1ee4 0 324 1e72 0 328 172 0 32d
1e76 0 330 1e74 1 303 1e7c 0 323 1e7e 1 300 1e80 0 301 1e82 0 302 174 0 307 1e86 0 308 1e84
0 323 1e88 1 307 1e8a 0 308 1e8c 1 300 1ef2 0 301 dd 0 302 176 0 303 1ef8 0 304 232 0 307
1e8e 0 308 178 0 309 1ef6 0 323 1ef4 1 301 179 0 302 1e90 0 307 17b 0 30c 17d 0 323 1e92 0
331 1e94 7 300 e0 0 301 e1 0 302 e2 0 303 e3 0 304 101 0 306 103 0 307 227 0 308 e4 0 309
1ea3 0 30a e5 0 30c 1ce 0 30f 201 0 311 203 0 323 1ea1 0 325 1e01 0 328 105 1 307 1e03 0 323
1e05 0 331 1e07 1 301 107 0 302 109 0 307 10b 0 30c 10d 0 327 e7 1 307 1e0b 0 30c 10f 0 323
1e0d 0 327 1e11 0 32d 1e13 0 331 1e0f 1 300 e8 0 301 e9 0 302 ea 0 303 1ebd 0 304 113 0 306
115 0 307 117 0 308 eb 0 309 1ebb 0 30c 11b 0 30f 205 0 311 207 0 323 1eb9 0 327 229 0 328
119 0 32d 1e19 0 330 1e1b 1 307 1e1f 1 301 1f5 0 302 11d 0 304 1e21 0 306 11f 0 307 121 0
30c 1e7 0 327 123 1 302 125 0 307 1e23 0 308 1e27 0 30c 21f 0 323 1e25 0 327 1e29 0 32e 1e2b
0 331 1e96 1 300 ec 0 301 ed 0 302 ee 0 303 129 0 304 12b 0 306 12d 0 308 ef 0 309 1ec9 0
30c 1d0 0 30f 209 0 311 20b 0 323 1ecb 0 328 12f 0 330 1e2d 1 302 135 0 30c 1f0 1 301 1e31 0
30c 1e9 0 323 1e33 0 327 137 0 331 1e35 1 301 13a 0 30c 13e 0 323 1e37 0 327 13c 0 32d 1e3d
0 331 1e3b 1 301 1e3f 0 307 1e41 0 323 1e43 1 300 1f9 0 301 144 0 303 f1 0 307 1e45 0 30c
148 0 323 1e47 0 327 146 0 32d 1e4b 0 331 1e49 1 300 f2 0 301 f3 0 302 f4 0 303 f5 0 304 14d
0 306 14f 0 307 22f 0 308 f6 0 309 1ecf 0 30b 151 0 30c 1d2 0 30f 20d 0 311 20f 0 31b 1a1 0
323 1ecd 0 328 1eb 1 301 1e55 0 307 1e57 2 301 155 0 307 1e59 0 30c 159 0 30f 211 0 311 213
0 323 1e5b 0 327 157 0 331 1e5f 1 301 15b 0 302 15d 0 307 1e61 0 30c 161 0 323 1e63 0 326
219 0 327 15f 1 307 1e6b 0 308 1e97 0 30c 165 0 323 1e6d 0 326 21b 0 327 163 0 32d 1e71 0
331 1e6f 1 300 f9 0 301 fa 0 302 fb 0 303 169 0 304 16b 0 306 16d 0 308 fc 0 309 1ee7 0 30a
16f 0 30b 171 0 30c 1d4 0 30f 215 0 311 217 0 31b 1b0 0 323 1ee5 0 324 1e73 0 328 173 0 32d
1e77 0 330 1e75 1 303 1e7d 0 323 1e7f 1 300 1e81 0 301 1e83 0 302 175 0 307 1e87 0 308 1e85
0 30a 1e98 0 323 1e89 1 307 1e8b 0 308 1e8d 1 300 1ef3 0 301 fd 0 302 177 0 303 1ef9 0 304
233 0 307 1e8f 0 308 ff 0 309 1ef7 0 30a 1e99 0 323 1ef5 1 301 17a 0 302 1e91 0 307 17c 0
30c 17e 0 323 1e93 0 331 1e95 2e 300 1fed 0 301 385 0 342 1fc1 1a 300 1ea6 0 301 1ea4 0 303
1eaa 0 309 1ea8 2 304 1de 1 301 1fa 1 301 1fc 0 304 1e2 1 301 1e08 3 300 1ec0 0 301 1ebe 0
303 1ec4 0 309 1ec2 5 301 1e2e 5 300 1ed2 0 301 1ed0 0 303 1ed6 0 309 1ed4 1 301 1e4c 0 304
22c 0 308 1e4e 1 304 22a 2 301 1fe 4 300 1db 0 301 1d7 0 304 1d5 0 30c 1d9 6 300 1ea7 0 301
1ea5 0 303 1eab 0 309 1ea9 2 304 1df 1 301 1fb 1 301 1fd 0 304 1e3 1 301 1e09 3 300 1ec1 0
301 1ebf 0 303 1ec5 0 309 1ec3 5 301 1e2f 5 300 1ed3 0 301 1ed1 0 303 1ed7 0 309 1ed5 1 301
1e4d 0 304 22d 0 308 1e4f 1 304 22b 2 301 1ff 4 300 1dc 0 301 1d8 0 304 1d6 0 30c 1da 6 300
1eb0 0 301 1eae 0 303 1eb4 0 309 1eb2 1 300 1eb1 0 301 1eaf 0 303 1eb5 0 309 1eb3 f 300 1e14
0 301 1e16 1 300 1e15 0 301 1e17 39 300 1e50 0 301 1e52 1 300 1e51 0 301 1e53 d 307 1e64 1
307 1e65 5 307 1e66 1 307 1e67 7 301 1e78 1 301 1e79 1 308 1e7a 1 308 1e7b 14 307 1e9b 21
300 1edc 0 301 1eda 0 303 1ee0 0 309 1ede 0 323 1ee2 1 300 1edd 0 301 1edb 0 303 1ee1 0 309
1edf 0 323 1ee3 e 300 1eea 0 301 1ee8 0 303 1eee 0 309 1eec 0 323 1ef0 1 300 1eeb 0 301 1ee9
0 303 1eef 0 309 1eed 0 323 1ef1 7 30c 1ee 33 304 1ec 1 304 1ed 3b 304 1e0 1 304 1e1 1 306
1e1c 1 306 1e1d 5 304 230 1 304 231 63 30c 1ef ff 300 1fba 0 301 386 0 304 1fb9 0 306 1fb8 0
313 1f08 0 314 1f09 0 345 1fbc 4 300 1fc8 0 301 388 0 313 1f18 0 314 1f19 2 300 1fca 0 301
389 0 313 1f28 0 314 1f29 0 345 1fcc 2 300 1fda 0 301 38a 0 304 1fd9 0 306 1fd8 0 308 3aa 0
313 1f38 0 314 1f39 6 300 1ff8 0 301 38c 0 313 1f48 0 314 1f49 2 314 1fec 4 300 1fea 0 301
38e 0 304 1fe9 0 306 1fe8 0 308 3ab 0 314 1f59 4 300 1ffa 0 301 38f 0 313 1f68 0 314 1f69 0
345 1ffc 3 345 1fb4 2 345 1fc4 3 300 1f70 0 301 3ac 0 304 1fb1 0 306 1fb0 0 313 1f00 0 314
1f01 0 342 1fb6 0 345 1fb3 4 300 1f72 0 301 3ad 0 313 1f10 0 314 1f11 2 300 1f74 0 301 3ae 0
313 1f20 0 314 1f21 0 342 1fc6 0 345 1fc3 2 300 1f76 0 301 3af 0 304 1fd1 0 306 1fd0 0 308
3ca 0 313 1f30 0 314 1f31 0 342 1fd6 6 300 1f78 0 301 3cc 0 313 1f40 0 314 1f41 2 313 1fe4 0
314 1fe5 4 300 1f7a 0 301 3cd 0 304 1fe1 0 306 1fe0 0 308 3cb 0 313 1f50 0 314 1f51 0 342
1fe6 4 300 1f7c 0 301 3ce 0 313 1f60 0 314 1f61 0 342 1ff6 0 345 1ff3 1 300 1fd2 0 301 390 0
342 1fd7 1 300 1fe2 0 301 3b0 0 342 1fe7 3 345 1ff4 4 301 3d3 0 308 3d4 34 308 407 a 306 4d0
0 308 4d2 3 301 403 2 300 400 0 306 4d6 0 308 401 1 306 4c1 0 308 4dc 1 308 4de 1 300 40d 0
304 4e2 0 306 419 0 308 4e4 2 301 40c 4 308 4e6 5 304 4ee 0 306 40e 0 308 4f0 0 30b 4f2 4
308 4f4 4 308 4f8 2 308 4ec 3 306 4d1 0 308 4d3 3 301 453 2 300 450 0 306 4d7 0 308 451 1
306 4c2 0 308 4dd 1 308 4df 1 300 45d 0 304 4e3 0 306 439 0 308 4e5 2 301 45c 4 308 4e7 5
304 4ef 0 306 45e 0 308 4f1 0 30b 4f3 4 308 4f5 4 308 4f9 2 308 4ed 9 308 457 1e 30f 476 1
30f 477 63 308 4da 1 308 4db f 308 4ea 1 308 4eb 13e 653 622 0 654 623 0 655 625 21 654 624
2 654 626 77 654 6c2 11 654 6d3 3 654 6c0 253 93c 929 8 93c 931 3 93c 934 94 9be 9cb 0 9d7
9cc 180 b3e b4b 0 b56 b48 0 b57 b4c 4b bd7 b94 34 bbe bca 0 bd7 bcc 1 bbe bcb 7f c56 c48 79
cd5 cc0 7 cc2 cca 0 cd5 cc7 0 cd6 cc8 4 cd5 ccb 7c d3e d4a 0 d57 d4c 1 d3e d4b 92 dca dda 0
dcf ddc 0 ddf dde 3 dca ddd 249 102e 1026 ae0 1b35 1b06 2 1b35 1b08 2 1b35 1b0a 2 1b35 1b0c
2 1b35 1b0e 4 1b35 1b12 29 1b35 1b3b 2 1b35 1b3d 2 1b35 1b40 1 1b35 1b41 3 1b35 1b43 2f4 304
1e38 1 304 1e39 23 304 1e5c 1 304 1e5d 7 307 1e68 1 307 1e69 3d 302 1eac 0 306 1eb6 1 302
1ead 0 306 1eb7 17 302 1ec6 1 302 1ec7 13 302 1ed8 1 302 1ed9 33 300 1f02 0 301 1f04 0 342
1f06 0 345 1f80 1 300 1f03 0 301 1f05 0 342 1f07 0 345 1f81 1 345 1f82 1 345 1f83 1 345 1f84
1 345 1f85 1 345 1f86 1 345 1f87 1 300 1f0a 0 301 1f0c 0 342 1f0e 0 345 1f88 1 300 1f0b 0
301 1f0d 0 342 1f0f 0 345 1f89 1 345 1f8a 1 345 1f8b 1 345 1f8c 1 345 1f8d 1 345 1f8e 1 345
1f8f 1 300 1f12 0 301 1f14 1 300 1f13 0 301 1f15 7 300 1f1a 0 301 1f1c 1 300 1f1b 0 301 1f1d
7 300 1f22 0 301 1f24 0 342 1f26 0 345 1f90 1 300 1f23 0 301 1f25 0 342 1f27 0 345 1f91 1
345 1f92 1 345 1f93 1 345 1f94 1 345 1f95 1 345 1f96 1 345 1f97 1 300 1f2a 0 301 1f2c 0 342
1f2e 0 345 1f98 1 300 1f2b 0 301 1f2d 0 342 1f2f 0 345 1f99 1 345 1f9a 1 345 1f9b 1 345 1f9c
1 345 1f9d 1 345 1f9e 1 345 1f9f 1 300 1f32 0 301 1f34 0 342 1f36 1 300 1f33 0 301 1f35 0
342 1f37 7 300 1f3a 0 301 1f3c 0 342 1f3e 1 300 1f3b 0 301 1f3d 0 342 1f3f 7 300 1f42 0 301
1f44 1 300 1f43 0 301 1f45 7 300 1f4a 0 301 1f4c 1 300 1f4b 0 301 1f4d 7 300 1f52 0 301 1f54
0 342 1f56 1 300 1f53 0 301 1f55 0 342 1f57 8 300 1f5b 0 301 1f5d 0 342 1f5f 7 300 1f62 0
301 1f64 0 342 1f66 0 345 1fa0 1 300 1f63 0 301 1f65 0 342 1f67 0 345 1fa1 1 345 1fa2 1 345
1fa3 1 345 1fa4 1 345 1fa5 1 345 1fa6 1 345 1fa7 1 300 1f6a 0 301 1f6c 0 342 1f6e 0 345 1fa8
1 300 1f6b 0 301 1f6d 0 342 1f6f 0 345 1fa9 1 345 1faa 1 345 1fab 1 345 1fac 1 345 1fad 1
345 1fae 1 345 1faf 1 345 1fb2 4 345 1fc2 8 345 1ff2 3a 345 1fb7 9 300 1fcd 0 301 1fce 0 342
1fcf 7 345 1fc7 30 345 1ff7 8 300 1fdd 0 301 1fde 0 342 1fdf 192 338 219a 2 338 219b 2 338
21ae 3c 338 21cd 2 338 21cf 2 338 21ce 2f 338 2204 5 338 2209 3 338 220c 18 338 2224 2 338
2226 17 338 2241 7 338 2244 2 338 2247 3 338 2249 5 338 226d 14 338 2262 3 338 2270 1 338
2271 d 338 2274 1 338 2275 3 338 2278 1 338 2279 3 338 2280 1 338 2281 1 338 22e0 1 338 22e1
5 338 2284 1 338 2285 3 338 2288 1 338 2289 a 338 22e2 1 338 22e3 10 338 22ac 6 338 22ad 1
338 22ae 2 338 22af 7 338 22ea 1 338 22eb 1 338 22ec 1 338 22ed d91 3099 3094 5 3099 304c 2
3099 304e 2 3099 3050 2 3099 3052 2 3099 3054 2 3099 3056 2 3099 3058 2 3099 305a 2 3099
305c 2 3099 305e 2 3099 3060 2 3099 3062 3 3099 3065 2 3099 3067 2 3099 3069 7 3099 3070 0
309a 3071 3 3099 3073 0 309a 3074 3 3099 3076 0 309a 3077 3 3099 3079 0 309a 307a 3 3099
307c 0 309a 307d 22 3099 309e 9 3099 30f4 5 3099 30ac 2 3099 30ae 2 3099 30b0 2 3099 30b2 2
3099 30b4 2 3099 30b6 2 3099 30b8 2 3099 30ba 2 3099 30bc 2 3099 30be 2 3099 30c0 2 3099
30c2 3 3099 30c5 2 3099 30c7 2 3099 30c9 7 3099 30d0 0 309a 30d1 3 3099 30d3 0 309a 30d4 3
3099 30d6 0 309a 30d7 3 3099 30d9 0 309a 30da 3 3099 30dc 0 309a 30dd 14 3099 30f7 1 3099
30f8 1 3099 30f9 1 3099 30fa b 3099 30fe df9c 110ba 1109a 2 110ba 1109c a 110ba 110ab 8c
11127 1112e 1 11127 1112f 215 1133e 1134b 0 11357 1134c 172 114b0 114bc 0 114ba 114bb 0
114bd 114be ff 115af 115ba 1 115af 115bb 37c 11930 11938"

def addSingles (last : Nat) (t : Table (List Nat)) : List Nat → Table (List Nat)
  | gap :: length :: target :: rest =>
    addSingles (last + gap)
      ((List.range length).foldl (fun t i => t.insert (last + gap + i) [target + i]) t) rest
  | _ => t

def addMultiples (last fuel : Nat) (t : Table (List Nat)) (ns : List Nat) : Table (List Nat) :=
  match fuel, ns with
  | fuel + 1, gap :: count :: rest =>
    addMultiples (last + gap) fuel (t.insert (last + gap) (rest.take count)) (rest.drop count)
  | _, _ => t

def addClasses (last : Nat) (t : Table Nat) : List Nat → Table Nat
  | gap :: length :: value :: rest =>
    addClasses (last + gap)
      ((List.range length).foldl (fun t i => t.insert (last + gap + i) value) t) rest
  | _ => t

def addCompositions (last : Nat) (t : Std.HashMap (Nat × Nat) Nat) :
    List Nat → Std.HashMap (Nat × Nat) Nat
  | gap :: second :: result :: rest =>
    addCompositions (last + gap) (t.insert (last + gap, second) result) rest
  | _ => t

/-- Full compatibility decompositions. -/
def decompositions : Table (List Nat) :=
  let numbers := hexNumbers multipleText
  addMultiples 0 numbers.length (addSingles 0 ∅ (hexNumbers singleText)) numbers

def classes : Table Nat := addClasses 0 ∅ (hexNumbers classText)

def compositions : Std.HashMap (Nat × Nat) Nat := addCompositions 0 ∅ (hexNumbers compositionText)

end LayerGate.Text.Compatibility
