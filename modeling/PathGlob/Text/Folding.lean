import PathGlob.Text.CodeRanges

/-!
# Case

Three relations to letter case: the first character of a full case folding, for sorting; classes of
characters that differ in case only, for matching; and characters that have another case at all.
-/
namespace PathGlob.Text

/-- Moves a character; the map never leads to a surrogate. -/
def CodeMap.imageChar (m : CodeMap) (c : Char) : Char := Char.ofNat (m.image c.toNat)

/-- First characters of full case foldings beyond the ASCII range. -/
def foldingMap : CodeMap := CodeMap.ofText
  "b5:1:1:307 c0:17:1:20 d8:7:1:20 df:1:1:-6c 100:18:2:1 130:1:1:-c7 132:3:2:1 139:8:2:1
   149:1:1:173 14a:17:2:1 178:1:1:-79 179:3:2:1 17f:1:1:-10c 181:1:1:d2 182:2:2:1 186:1:1:ce
   187:1:1:1 189:2:1:cd 18b:1:1:1 18e:1:1:4f 18f:1:1:ca 190:1:1:cb 191:1:1:1 193:1:1:cd 194:1:1:cf
   196:1:1:d3 197:1:1:d1 198:1:1:1 19c:1:1:d3 19d:1:1:d5 19f:1:1:d6 1a0:3:2:1 1a6:1:1:da 1a7:1:1:1
   1a9:1:1:da 1ac:1:1:1 1ae:1:1:da 1af:1:1:1 1b1:2:1:d9 1b3:2:2:1 1b7:1:1:db 1b8:1:1:1 1bc:1:1:1
   1c4:1:1:2 1c5:1:1:1 1c7:1:1:2 1c8:1:1:1 1ca:1:1:2 1cb:9:2:1 1de:9:2:1 1f0:1:1:-186 1f1:1:1:2
   1f2:2:2:1 1f6:1:1:-61 1f7:1:1:-38 1f8:14:2:1 220:1:1:-82 222:9:2:1 23a:1:1:2a2b 23b:1:1:1
   23d:1:1:-a3 23e:1:1:2a28 241:1:1:1 243:1:1:-c3 244:1:1:45 245:1:1:47 246:5:2:1 345:1:1:74
   370:2:2:1 376:1:1:1 37f:1:1:74 386:1:1:26 388:3:1:25 38c:1:1:40 38e:2:1:3f 390:1:1:29
   391:11:1:20 3a3:9:1:20 3b0:1:1:15 3c2:1:1:1 3cf:1:1:8 3d0:1:1:-1e 3d1:1:1:-19 3d5:1:1:-f
   3d6:1:1:-16 3d8:c:2:1 3f0:1:1:-36 3f1:1:1:-30 3f4:1:1:-3c 3f5:1:1:-40 3f7:1:1:1 3f9:1:1:-7
   3fa:1:1:1 3fd:3:1:-82 400:10:1:50 410:20:1:20 460:11:2:1 48a:1b:2:1 4c0:1:1:f 4c1:7:2:1
   4d0:30:2:1 531:26:1:30 587:1:1:-22 10a0:26:1:1c60 10c7:1:1:1c60 10cd:1:1:1c60 13f8:6:1:-8
   1c80:1:1:-184e 1c81:1:1:-184d 1c82:1:1:-1844 1c83:2:1:-1842 1c85:1:1:-1843 1c86:1:1:-183c
   1c87:1:1:-1824 1c88:1:1:89c3 1c90:2b:1:-bc0 1cbd:3:1:-bc0 1e00:4b:2:1 1e96:1:1:-1e2e
   1e97:1:1:-1e23 1e98:1:1:-1e21 1e99:1:1:-1e20 1e9a:1:1:-1e39 1e9b:1:1:-3a 1e9e:1:1:-1e2b
   1ea0:30:2:1 1f08:8:1:-8 1f18:6:1:-8 1f28:8:1:-8 1f38:8:1:-8 1f48:6:1:-8 1f50:1:1:-1b8b
   1f52:1:1:-1b8d 1f54:1:1:-1b8f 1f56:1:1:-1b91 1f59:4:2:-8 1f68:8:1:-8 1f80:8:1:-80 1f88:8:1:-88
   1f90:8:1:-70 1f98:8:1:-78 1fa0:8:1:-40 1fa8:8:1:-48 1fb2:1:1:-42 1fb3:1:1:-1c02 1fb4:1:1:-1c08
   1fb6:1:1:-1c05 1fb7:1:1:-1c06 1fb8:2:1:-8 1fba:2:1:-4a 1fbc:1:1:-1c0b 1fbe:1:1:-1c05
   1fc2:1:1:-4e 1fc3:1:1:-1c0c 1fc4:1:1:-1c16 1fc6:1:1:-1c0f 1fc7:1:1:-1c10 1fc8:4:1:-56
   1fcc:1:1:-1c15 1fd2:1:1:-1c19 1fd3:1:1:-1c1a 1fd6:1:1:-1c1d 1fd7:1:1:-1c1e 1fd8:2:1:-8
   1fda:2:1:-64 1fe2:1:1:-1c1d 1fe3:1:1:-1c1e 1fe4:1:1:-1c23 1fe6:1:1:-1c21 1fe7:1:1:-1c22
   1fe8:2:1:-8 1fea:2:1:-70 1fec:1:1:-7 1ff2:1:1:-76 1ff3:1:1:-1c2a 1ff4:1:1:-1c26 1ff6:1:1:-1c2d
   1ff7:1:1:-1c2e 1ff8:2:1:-80 1ffa:2:1:-7e 1ffc:1:1:-1c33 2126:1:1:-1d5d 212a:1:1:-20bf
   212b:1:1:-2046 2132:1:1:1c 2160:10:1:10 2183:1:1:1 24b6:1a:1:1a 2c00:30:1:30 2c60:1:1:1
   2c62:1:1:-29f7 2c63:1:1:-ee6 2c64:1:1:-29e7 2c67:3:2:1 2c6d:1:1:-2a1c 2c6e:1:1:-29fd
   2c6f:1:1:-2a1f 2c70:1:1:-2a1e 2c72:1:1:1 2c75:1:1:1 2c7e:2:1:-2a3f 2c80:32:2:1 2ceb:2:2:1
   2cf2:1:1:1 a640:17:2:1 a680:e:2:1 a722:7:2:1 a732:1f:2:1 a779:2:2:1 a77d:1:1:-8a04 a77e:5:2:1
   a78b:1:1:1 a78d:1:1:-a528 a790:2:2:1 a796:a:2:1 a7aa:1:1:-a544 a7ab:1:1:-a54f a7ac:1:1:-a54b
   a7ad:1:1:-a541 a7ae:1:1:-a544 a7b0:1:1:-a512 a7b1:1:1:-a52a a7b2:1:1:-a515 a7b3:1:1:3a0
   a7b4:8:2:1 a7c4:1:1:-30 a7c5:1:1:-a543 a7c6:1:1:-8a38 a7c7:2:2:1 a7d0:1:1:1 a7d6:2:2:1
   a7f5:1:1:1 ab70:50:1:-97d0 fb00:1:1:-fa9a fb01:1:1:-fa9b fb02:1:1:-fa9c fb03:1:1:-fa9d
   fb04:1:1:-fa9e fb05:1:1:-fa92 fb06:1:1:-fa93 fb13:1:1:-f59f fb14:1:1:-f5a0 fb15:1:1:-f5a1
   fb16:1:1:-f598 fb17:1:1:-f5a3 ff21:1a:1:20 10400:28:1:28 104b0:24:1:28 10570:13:2:27
   10571:5:2:27 1057d:7:2:27 1058d:3:2:27 10595:1:1:27 10c80:33:1:40 118a0:20:1:20 16e40:20:1:20
   1e900:22:1:22"

def foldFirst (c : Char) : Char :=
  if c.toNat < 128 then c.toLower else foldingMap.imageChar c

/-- Representatives of the classes of case variants, beyond the ASCII range. -/
def variantMap : CodeMap := CodeMap.ofText
  "c0:17:1:20 d8:7:1:20 100:18:2:1 130:1:1:-c7 131:1:1:-c8 132:3:2:1 139:8:2:1 14a:17:2:1
   178:1:1:-79 179:3:2:1 17f:1:1:-10c 181:1:1:d2 182:2:2:1 186:1:1:ce 187:1:1:1 189:2:1:cd
   18b:1:1:1 18e:1:1:4f 18f:1:1:ca 190:1:1:cb 191:1:1:1 193:1:1:cd 194:1:1:cf 196:1:1:d3 197:1:1:d1
   198:1:1:1 19c:1:1:d3 19d:1:1:d5 19f:1:1:d6 1a0:3:2:1 1a6:1:1:da 1a7:1:1:1 1a9:1:1:da 1ac:1:1:1
   1ae:1:1:da 1af:1:1:1 1b1:2:1:d9 1b3:2:2:1 1b7:1:1:db 1b8:1:1:1 1bc:1:1:1 1c4:1:1:2 1c5:1:1:1
   1c7:1:1:2 1c8:1:1:1 1ca:1:1:2 1cb:9:2:1 1de:9:2:1 1f1:1:1:2 1f2:2:2:1 1f6:1:1:-61 1f7:1:1:-38
   1f8:14:2:1 220:1:1:-82 222:9:2:1 23a:1:1:2a2b 23b:1:1:1 23d:1:1:-a3 23e:1:1:2a28 241:1:1:1
   243:1:1:-c3 244:1:1:45 245:1:1:47 246:5:2:1 370:2:2:1 376:1:1:1 37f:1:1:74 386:1:1:26 388:3:1:25
   38c:1:1:40 38e:2:1:3f 391:8:1:20 399:1:1:-54 39a:2:1:20 39c:1:1:-2e7 39d:5:1:20 3a3:1:1:1f
   3a4:8:1:20 3b9:1:1:-74 3bc:1:1:-307 3c3:1:1:-1 3cf:1:1:8 3d0:1:1:-1e 3d1:1:1:-19 3d5:1:1:-f
   3d6:1:1:-16 3d8:c:2:1 3f0:1:1:-36 3f1:1:1:-30 3f4:1:1:-3c 3f5:1:1:-40 3f7:1:1:1 3f9:1:1:-7
   3fa:1:1:1 3fd:3:1:-82 400:10:1:50 410:20:1:20 460:11:2:1 48a:1b:2:1 4c0:1:1:f 4c1:7:2:1
   4d0:30:2:1 531:26:1:30 10a0:26:1:1c60 10c7:1:1:1c60 10cd:1:1:1c60 13a0:50:1:97d0 13f0:6:1:8
   1c80:1:1:-184e 1c81:1:1:-184d 1c82:1:1:-1844 1c83:2:1:-1842 1c85:1:1:-1843 1c86:1:1:-183c
   1c87:1:1:-1824 1c90:2b:1:-bc0 1cbd:3:1:-bc0 1e00:4b:2:1 1e9b:1:1:-3a 1e9e:1:1:-1dbf 1ea0:30:2:1
   1f08:8:1:-8 1f18:6:1:-8 1f28:8:1:-8 1f38:8:1:-8 1f48:6:1:-8 1f59:4:2:-8 1f68:8:1:-8 1f88:8:1:-8
   1f98:8:1:-8 1fa8:8:1:-8 1fb8:2:1:-8 1fba:2:1:-4a 1fbc:1:1:-9 1fbe:1:1:-1c79 1fc8:4:1:-56
   1fcc:1:1:-9 1fd3:1:1:-1c43 1fd8:2:1:-8 1fda:2:1:-64 1fe3:1:1:-1c33 1fe8:2:1:-8 1fea:2:1:-70
   1fec:1:1:-7 1ff8:2:1:-80 1ffa:2:1:-7e 1ffc:1:1:-9 2126:1:1:-1d5d 212a:1:1:-20bf 212b:1:1:-2046
   2132:1:1:1c 2160:10:1:10 2183:1:1:1 24b6:1a:1:1a 2c00:30:1:30 2c60:1:1:1 2c62:1:1:-29f7
   2c63:1:1:-ee6 2c64:1:1:-29e7 2c67:3:2:1 2c6d:1:1:-2a1c 2c6e:1:1:-29fd 2c6f:1:1:-2a1f
   2c70:1:1:-2a1e 2c72:1:1:1 2c75:1:1:1 2c7e:2:1:-2a3f 2c80:32:2:1 2ceb:2:2:1 2cf2:1:1:1 a640:5:2:1
   a64a:1:1:-89c2 a64b:1:1:-89c3 a64c:11:2:1 a680:e:2:1 a722:7:2:1 a732:1f:2:1 a779:2:2:1
   a77d:1:1:-8a04 a77e:5:2:1 a78b:1:1:1 a78d:1:1:-a528 a790:2:2:1 a796:a:2:1 a7aa:1:1:-a544
   a7ab:1:1:-a54f a7ac:1:1:-a54b a7ad:1:1:-a541 a7ae:1:1:-a544 a7b0:1:1:-a512 a7b1:1:1:-a52a
   a7b2:1:1:-a515 a7b3:1:1:3a0 a7b4:8:2:1 a7c4:1:1:-30 a7c5:1:1:-a543 a7c6:1:1:-8a38 a7c7:2:2:1
   a7d0:1:1:1 a7d6:2:2:1 a7f5:1:1:1 fb06:1:1:-1 ff21:1a:1:20 10400:28:1:28 104b0:24:1:28
   10570:13:2:27 10571:5:2:27 1057d:7:2:27 1058d:3:2:27 10595:1:1:27 10c80:33:1:40 118a0:20:1:20
   16e40:20:1:20 1e900:22:1:22"

/-- The representative of the characters that differ from `c` in case only. -/
def caseKey (c : Char) : Char :=
  if c.toNat < 128 then c.toLower else variantMap.imageChar c

/-- All characters that differ from `c` in case only, itself included. -/
def caseVariants (c : Char) : List Char :=
  let k := caseKey c
  k :: (if k.toNat < 128 then [k.toUpper] else []) ++ (variantMap.sources k.toNat).map Char.ofNat

/-- Characters beyond the ASCII range whose lower-case and upper-case spellings differ. -/
def casedRanges : CodeRanges := CodeRanges.ofText
  "b5 c0-d6 d8-f6 f8-137 139-18c 18e-19a 19c-1a9 1ac-1b9 1bc-1bd 1bf 1c4-220 222-233 23a-254
   256-257 259 25b-25c 260-261 263 265-266 268-26c 26f 271-272 275 27d 280 282-283 287-28c 292
   29d-29e 345 370-373 376-377 37b-37d 37f 386 388-38a 38c 38e-3a1 3a3-3d1 3d5-3f5 3f7-3fb 3fd-481
   48a-52f 531-556 561-587 10a0-10c5 10c7 10cd 10d0-10fa 10fd-10ff 13a0-13f5 13f8-13fd 1c80-1c88
   1c90-1cba 1cbd-1cbf 1d79 1d7d 1d8e 1e00-1e9b 1e9e 1ea0-1f15 1f18-1f1d 1f20-1f45 1f48-1f4d
   1f50-1f57 1f59 1f5b 1f5d 1f5f-1f7d 1f80-1fb4 1fb6-1fbc 1fbe 1fc2-1fc4 1fc6-1fcc 1fd0-1fd3
   1fd6-1fdb 1fe0-1fec 1ff2-1ff4 1ff6-1ffc 2126 212a-212b 2132 214e 2160-217f 2183-2184 24b6-24e9
   2c00-2c70 2c72-2c73 2c75-2c76 2c7e-2ce3 2ceb-2cee 2cf2-2cf3 2d00-2d25 2d27 2d2d a640-a66d
   a680-a69b a722-a72f a732-a76f a779-a787 a78b-a78d a790-a794 a796-a7ae a7b0-a7ca a7d0-a7d1
   a7d6-a7d9 a7f5-a7f6 ab53 ab70-abbf fb00-fb06 fb13-fb17 ff21-ff3a ff41-ff5a 10400-1044f
   104b0-104d3 104d8-104fb 10570-1057a 1057c-1058a 1058c-10592 10594-10595 10597-105a1 105a3-105b1
   105b3-105b9 105bb-105bc 10c80-10cb2 10cc0-10cf2 118a0-118df 16e40-16e7f 1e900-1e943"

/-- Whether the lower-case and upper-case spellings of a character differ. -/
def hasCase (c : Char) : Bool :=
  if c.toNat < 128 then c.isAlpha else casedRanges.contains c.toNat

end PathGlob.Text
