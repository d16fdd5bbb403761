import CodeAtlas.Text.CodePoints
/-!
# Search tokens

The words that full-text search compares: maximal runs of characters that are no separators, in small letters, and with the
marks of Latin letters taken off. A combining mark inside a token is passed over. Underscores and punctuation separate.
-/

namespace CodeAtlas.Text

namespace Token

/-- Separators beyond ASCII. -/
def separators : CodeTable := .ofText
  "80-A9 AB-B1 B4 B6-B8 BB BF D7 F7 2C2-2C5 2D2-2DF 2E5-2EB 2ED 2EF-36F 375 37E 384-385 387 3F6
482-489 55A-55F 589-58A 58F 591-5C7 5F3-5F4 600-604 606-61B 61E-61F 64B-65F 66A-66D 670 6D4
6D6-6E4 6E7-6ED 6FD-6FE 700-70D 70F 711 730-74A 7A6-7B0 7EB-7F3 7F6-7F9 816-819 81B-823 825-827
829-82D 830-83E 859-85B 85E 8E4-8FE 900-903 93A-93C 93E-94F 951-957 962-965 970 981-983 9BC
9BE-9C4 9C7-9C8 9CB-9CD 9D7 9E2-9E3 9F2-9F3 9FA-9FB A01-A03 A3C A3E-A42 A47-A48 A4B-A4D A51
A70-A71 A75 A81-A83 ABC ABE-AC5 AC7-AC9 ACB-ACD AE2-AE3 AF0-AF1 B01-B03 B3C B3E-B44 B47-B48
B4B-B4D B56-B57 B62-B63 B70 B82 BBE-BC2 BC6-BC8 BCA-BCD BD7 BF3-BFA C01-C03 C3E-C44 C46-C48
C4A-C4D C55-C56 C62-C63 C7F C82-C83 CBC CBE-CC4 CC6-CC8 CCA-CCD CD5-CD6 CE2-CE3 D02-D03 D3E-D44
D46-D48 D4A-D4D D57 D62-D63 D79 D82-D83 DCA DCF-DD4 DD6 DD8-DDF DF2-DF4 E31 E34-E3A E3F E47-E4F
E5A-E5B EB1 EB4-EB9 EBB-EBC EC8-ECD F01-F1F F34-F3F F71-F87 F8D-F97 F99-FBC FBE-FCC FCE-FDA
102B-103E 104A-104F 1056-1059 105E-1060 1062-1064 1067-106D 1071-1074 1082-108D 108F 109A-109F
10FB 135D-1368 1390-1399 1400 166D-166E 1680 169B-169C 16EB-16ED 1712-1714 1732-1736 1752-1753
1772-1773 17B4-17D6 17D8-17DB 17DD 1800-180E 18A9 1920-192B 1930-193B 1940 1944-1945 19B0-19C0
19C8-19C9 19DE-19FF 1A17-1A1B 1A1E-1A1F 1A55-1A5E 1A60-1A7C 1A7F 1AA0-1AA6 1AA8-1AAD 1B00-1B04
1B34-1B44 1B5A-1B7C 1B80-1B82 1BA1-1BAD 1BE6-1BF3 1BFC-1BFF 1C24-1C37 1C3B-1C3F 1C7E-1C7F
1CC0-1CC7 1CD0-1CE8 1CED 1CF2-1CF4 1DC0-1DE6 1DFC-1DFF 1FBD 1FBF-1FC1 1FCD-1FCF 1FDD-1FDF
1FED-1FEF 1FFD-1FFE 2000-2064 206A-206F 207A-207E 208A-208E 20A0-20B9 20D0-20F0 2100-2101
2103-2106 2108-2109 2114 2116-2118 211E-2123 2125-2129/2 212E 213A-213B 2140-2144 214A-214D 214F
2190-23F3 2400-2426 2440-244A 249C-24E9 2500-26FF 2701-2775 2794-2B4C 2B50-2B59 2CE5-2CEA
2CEF-2CF1 2CF9-2CFC 2CFE-2CFF 2D70 2D7F 2DE0-2E2E 2E30-2E3B 2E80-2E99 2E9B-2EF3 2F00-2FD5
2FF0-2FFB 3000-3004 3008-3020 302A-3030 3036-3037 303D-303F 3099-309C 30A0 30FB 3190-3191
3196-319F 31C0-31E3 3200-321E 322A-3247 3250 3260-327F 328A-32B0 32C0-32FE 3300-33FF 4DC0-4DFF
A490-A4C6 A4FE-A4FF A60D-A60F A66F-A67E A69F A6F0-A6F7 A700-A716 A720-A721 A789-A78A A802 A806
A80B A823-A82B A836-A839 A874-A877 A880-A881 A8B4-A8C4 A8CE-A8CF A8E0-A8F1 A8F8-A8FA A926-A92F
A947-A953 A95F A980-A983 A9B3-A9CD A9DE-A9DF AA29-AA36 AA43 AA4C-AA4D AA5C-AA5F AA77-AA79 AA7B
AAB0 AAB2-AAB4 AAB7-AAB8 AABE-AABF AAC1 AADE-AADF AAEB-AAF1 AAF5-AAF6 ABE3-ABED FB1E FB29
FBB2-FBC1 FD3E-FD3F FDFC-FDFD FE00-FE19 FE20-FE26 FE30-FE52 FE54-FE66 FE68-FE6B FEFF FF01-FF0F
FF1A-FF20 FF3B-FF40 FF5B-FF65 FFE0-FFE6 FFE8-FFEE FFF9-FFFF 10100-10102 10137-1013F 10179-10189
10190-1019B 101D0-101FD 1039F 103D0 10857 1091F 1093F 10A01-10A03 10A05-10A06 10A0C-10A0F
10A38-10A3A 10A3F 10A50-10A58 10A7F 10B39-10B3F 11000-11002 11038-1104D 11080-11082 110B0-110C1
11100-11102 11127-11134 11140-11143 11180-11182 111B3-111C0 111C5-111C8 116AB-116B7 12470-12473
16F51-16F7E 16F8F-16F92 1D000-1D0F5 1D100-1D126 1D129-1D1DD 1D200-1D245 1D300-1D356 1D6C1 1D6DB
1D6FB 1D715 1D735 1D74F 1D76F 1D789 1D7A9 1D7C3 1EEF0-1EEF1 1F000-1F02B 1F030-1F093 1F0A0-1F0AE
1F0B1-1F0BE 1F0C1-1F0CF 1F0D1-1F0DF 1F110-1F12E 1F130-1F16B 1F170-1F19A 1F1E6-1F202 1F210-1F23A
1F240-1F248 1F250-1F251 1F300-1F320 1F330-1F335 1F337-1F37C 1F380-1F393 1F3A0-1F3C4 1F3C6-1F3CA
1F3E0-1F3F0 1F400-1F43E 1F440 1F442-1F4F7 1F4F9-1F4FC 1F500-1F53D 1F540-1F543 1F550-1F567
1F5FB-1F640 1F645-1F64F 1F680-1F6C5 1F700-1F773 E0001 E0020-E007F E0100-E01EF"

/-- The form in which characters beyond ASCII are compared: small, and without marks on Latin letters. -/
def folding : CodeTable := .ofText
  "B5>3BC C0>61 C1>61 C2>61 C3>61 C4>61 C5>61 C6>E6 C7>63 C8>65 C9>65 CA>65 CB>65 CC>69 CD>69 CE>69
CF>69 D0>F0 D1-D2>6E D3>6F D4>6F D5>6F D6>6F D8>F8 D9>75 DA>75 DB>75 DC>75 DD>79 DE>FE E0>61
E1>61 E2>61 E3>61 E4>61 E5-E7/2>61 E8>65 E9>65 EA>65 EB>65 EC>69 ED>69 EE>69 EF>69 F1-F2>6E
F3>6F F4>6F F5>6F F6>6F F9>75 FA>75 FB>75 FC>75 FD>79 FF>79 100>61 101>61 102>61 103>61 104>61
105>61 106>63 107>63 108>63 109>63 10A>63 10B>63 10C>63 10D-10E>63 10F>64 110>111 112>65 113>65
114>65 115>65 116>65 117>65 118>65 119>65 11A>65 11B>65 11C>67 11D>67 11E>67 11F>67 120>67
121>67 122>67 123-124>67 125>68 126>127 128>69 129>69 12A>69 12B>69 12C>69 12D>69 12E>69 12F>69
130>69 132>133 134>6A 135-136>6A 137>6B 139>6C 13A>6C 13B>6C 13C>6C 13D>6C 13E>6C 13F-141/2>140
143>6E 144>6E 145>6E 146>6E 147>6E 148>6E 14A>14B 14C>6F 14D>6F 14E>6F 14F>6F 150>6F 151>6F
152>153 154>72 155>72 156>72 157>72 158>72 159-15A>72 15B>73 15C>73 15D>73 15E>73 15F>73 160>73
161-162>73 163>74 164>74 165>74 166>167 168>75 169>75 16A>75 16B>75 16C>75 16D>75 16E>75 16F>75
170>75 171>75 172>75 173>75 174>77 175>77 176>79 177>79 178-179>79 17A>7A 17B>7A 17C>7A 17D>7A
17E>7A 17F>73 181>253 182-184/2>183 186>254 187>188 189-18A>256 18B>18C 18E>1DD 18F>259 190>25B
191>192 193>260 194>263 196>269 197>268 198>199 19C>26F 19D>272 19F>275 1A0>6F 1A1>6F
1A2-1A4/2>1A3 1A6>280 1A7>1A8 1A9>283 1AC>1AD 1AE>288 1AF>75 1B0>75 1B1-1B2>28A 1B3-1B5/2>1B4
1B7>292 1B8>1B9 1BC>1BD 1C4>1C6 1C5>1C6 1C7>1C9 1C8>1C9 1CA>1CC 1CB>1CC 1CD>61 1CE>61 1CF>69
1D0>69 1D1>6F 1D2>6F 1D3>75 1D4>75 1D5-1DB/2>1D6 1DE-1E4/2>1DF 1E6>67 1E7>67 1E8>6B 1E9>6B
1EA>6F 1EB>6F 1EC-1EE/2>1ED 1F0>6A 1F1>1F3 1F2>1F3 1F4>67 1F5>67 1F6>195 1F7>1BF 1F8>6E 1F9>6E
1FA-1FE/2>1FB 200>61 201>61 202>61 203>61 204>65 205>65 206>65 207>65 208>69 209>69 20A>69
20B>69 20C>6F 20D>6F 20E>6F 20F>6F 210>72 211>72 212>72 213>72 214>75 215>75 216>75 217>75
218>73 219-21A>73 21B>74 21C>21D 21E>68 21F>68 220>19E 222-224/2>223 226>61 227>61 228>65 229>65
22A-22C/2>22B 22E>6F 22F>6F 230>231 232>79 233>79 23A>2C65 23B>23C 23D>19A 23E>2C66 241>242
243>180 244>289 245>28C 246-24E/2>247 370-372/2>371 376>377 386>3AC 388-38A>3AD 38C>3CC
38E-38F>3CD 391-3A1>3B1 3A3-3AB>3C3 3C2>3C3 3CF>3D7 3D0>3B2 3D1>3B8 3D5>3C6 3D6>3C0
3D8-3EE/2>3D9 3F0>3BA 3F1>3C1 3F4>3B8 3F5>3B5 3F7>3F8 3F9>3F2 3FA>3FB 3FD-3FF>37B 400-40F>450
410-42F>430 460-480/2>461 48A-4BE/2>48B 4C0>4CF 4C1-4CD/2>4C2 4D0-526/2>4D1 531-556>561
10A0-10C5>2D00 10C7>2D27 10CD>2D2D 1E00>61 1E01-1E02>61 1E03>62 1E04>62 1E05>62 1E06>62 1E07>62
1E08>1E09 1E0A>64 1E0B>64 1E0C>64 1E0D>64 1E0E>64 1E0F>64 1E10>64 1E11>64 1E12>64 1E13>64
1E14-1E16/2>1E15 1E18>65 1E19>65 1E1A>65 1E1B>65 1E1C>1E1D 1E1E>66 1E1F-1E20>66 1E21-1E22>67
1E23>68 1E24>68 1E25>68 1E26>68 1E27>68 1E28>68 1E29>68 1E2A>68 1E2B-1E2C>68 1E2D>69 1E2E>1E2F
1E30>6B 1E31>6B 1E32>6B 1E33>6B 1E34>6B 1E35-1E36>6B 1E37>6C 1E38>1E39 1E3A>6C 1E3B>6C 1E3C>6C
1E3D-1E3E>6C 1E3F>6D 1E40>6D 1E41>6D 1E42>6D 1E43-1E44>6D 1E45>6E 1E46>6E 1E47>6E 1E48>6E
1E49>6E 1E4A>6E 1E4B>6E 1E4C-1E52/2>1E4D 1E54>70 1E55>70 1E56>70 1E57>70 1E58>72 1E59>72 1E5A>72
1E5B>72 1E5C>1E5D 1E5E>72 1E5F-1E60>72 1E61>73 1E62>73 1E63>73 1E64-1E68/2>1E65 1E6A>74 1E6B>74
1E6C>74 1E6D>74 1E6E>74 1E6F>74 1E70>74 1E71-1E72>74 1E73>75 1E74>75 1E75>75 1E76>75 1E77>75
1E78-1E7A/2>1E79 1E7C>76 1E7D>76 1E7E>76 1E7F-1E80>76 1E81>77 1E82>77 1E83>77 1E84>77 1E85>77
1E86>77 1E87>77 1E88>77 1E89-1E8A>77 1E8B>78 1E8C>78 1E8D-1E8E>78 1E8F-1E90>79 1E91>7A 1E92>7A
1E93>7A 1E94>7A 1E95>7A 1E96>68 1E97>74 1E98>77 1E99>79 1E9B>73 1E9E>DF 1EA0>61 1EA1>61 1EA2>61
1EA3>61 1EA4-1EB6/2>1EA5 1EB8>65 1EB9>65 1EBA>65 1EBB>65 1EBC>65 1EBD>65 1EBE-1EC6/2>1EBF
1EC8>69 1EC9>69 1ECA>69 1ECB>69 1ECC>6F 1ECD>6F 1ECE>6F 1ECF>6F 1ED0-1EE2/2>1ED1 1EE4>75 1EE5>75
1EE6>75 1EE7>75 1EE8-1EF0/2>1EE9 1EF2>79 1EF3>79 1EF4>79 1EF5>79 1EF6>79 1EF7>79 1EF8>79 1EF9>79
1EFA-1EFE/2>1EFB 1F08-1F0F>1F00 1F18-1F1D>1F10 1F28-1F2F>1F20 1F38-1F3F>1F30 1F48-1F4D>1F40
1F59-1F5F/2>1F51 1F68-1F6F>1F60 1F88-1F8F>1F80 1F98-1F9F>1F90 1FA8-1FAF>1FA0 1FB8-1FB9>1FB0
1FBA-1FBB>1F70 1FBC>1FB3 1FBE>3B9 1FC8-1FCB>1F72 1FCC>1FC3 1FD8-1FD9>1FD0 1FDA-1FDB>1F76
1FE8-1FE9>1FE0 1FEA-1FEB>1F7A 1FEC>1FE5 1FF8-1FF9>1F78 1FFA-1FFB>1F7C 1FFC>1FF3 2126>3C9 212A>6B
212B>61 2132>214E 2160-216F>2170 2183>2184 2C00-2C2E>2C30 2C60>2C61 2C62>26B 2C63>1D7D 2C64>27D
2C67-2C6B/2>2C68 2C6D>251 2C6E>271 2C6F>250 2C70>252 2C72>2C73 2C75>2C76 2C7E-2C7F>23F
2C80-2CE2/2>2C81 2CEB-2CED/2>2CEC 2CF2>2CF3 A640-A66C/2>A641 A680-A696/2>A681 A722-A72E/2>A723
A732-A76E/2>A733 A779-A77B/2>A77A A77D>1D79 A77E-A786/2>A77F A78B>A78C A78D>265 A790-A792/2>A791
A7A0-A7A8/2>A7A1 A7AA>266 FF21-FF3A>FF41 10400-10427>10428"

/-- Combining marks that are passed over inside a token. -/
def marks : CodeTable := .ofText
  "300-304 306-30C 30F 311 31B 323-328 32D-32E 330-331"

/-- Characters that a token consists of. -/
def isTokenChar (c : Char) : Bool :=
  if c.toNat < 128 then c.isAlphanum else !separators.contains c

/-- The form in which a character is compared. -/
def fold (c : Char) : Char := if c.toNat < 128 then c.toLower else folding.apply c

/-- The tokens of a text, where `current` is the token begun, last character first. -/
def tokensFrom : List Char → List Char → List (List Char)
  | current, [] => if current.isEmpty then [] else [current.reverse]
  | current, c :: cs =>
    if isTokenChar c then tokensFrom (fold c :: current) cs
    else if !current.isEmpty && marks.contains c then tokensFrom current cs
    else if current.isEmpty then tokensFrom [] cs
    else current.reverse :: tokensFrom [] cs

end Token

/-- The tokens of a text. -/
def tokens (s : String) : List (List Char) := Token.tokensFrom [] s.toList

end CodeAtlas.Text
