/-
Code points and what is known of them. The general category of every code point is kept as runs of
code points of one category: a letter names the category and the number after it the length of the
run, no number standing for one. White space and the code points that the latest edition of the
standard has assigned are kept as closed ranges.
-/
import JsonSieve.Text.Numeral

namespace JsonSieve.Unicode

/-- The general categories of characters. -/
inductive Category where
  | uppercaseLetter | lowercaseLetter | titlecaseLetter | modifierLetter | otherLetter
  | nonspacingMark | spacingMark | enclosingMark | decimalNumber | letterNumber | otherNumber
  | connectorPunctuation | dashPunctuation | openPunctuation | closePunctuation
  | initialPunctuation | finalPunctuation | otherPunctuation | mathSymbol | currencySymbol
  | modifierSymbol | otherSymbol | spaceSeparator | lineSeparator | paragraphSeparator | control
  | format | surrogate | privateUse | unassigned
  deriving DecidableEq, Repr

namespace Category

/-- All categories, in the order of the letters that name them in the runs. -/
def all : List Category :=
  [.uppercaseLetter, .lowercaseLetter, .titlecaseLetter, .modifierLetter, .otherLetter,
   .nonspacingMark, .spacingMark, .enclosingMark, .decimalNumber, .letterNumber, .otherNumber,
   .connectorPunctuation, .dashPunctuation, .openPunctuation, .closePunctuation,
   .initialPunctuation, .finalPunctuation, .otherPunctuation, .mathSymbol, .currencySymbol,
   .modifierSymbol, .otherSymbol, .spaceSeparator, .lineSeparator, .paragraphSeparator,
   .control, .format, .surrogate, .privateUse, .unassigned]

/-- The letters that name the categories in the runs. -/
def letters : Text :=
  "ABCDEFGHIJKLMNOPQRSTUVWXYZabcd".toList

/-- The category that a letter names. -/
def ofLetter (c : Char) : Category :=
  ((letters.zip all).lookup c).getD .unassigned

end Category

/-- Consecutive code points of one category, from `first` up to but not including `stop`. -/
structure Run where
  first : Nat
  stop : Nat
  category : Category
  deriving Repr

/-- Reads runs that start at the code point `first`. -/
def Run.read : (fuel first : Nat) → Text → List Run
  | 0, _, _ => []
  | _ + 1, _, [] => []
  | fuel + 1, first, c :: s =>
    let digits := s.takeWhile Char.isDigit
    let stop := first + if digits.isEmpty then 1 else Text.value digits
    ⟨first, stop, .ofLetter c⟩ :: Run.read fuel stop (s.dropWhile Char.isDigit)

/-- The runs of all code points, in order. -/
def runTexts : List String :=
  ["Z32WR3TR3NORSRMR2I10R2S3R2A26NROULUB26NSOSZ33WRT4VRUVEPSaVUVSK2UBR2UKEQK3RA23SA7B24SB8ABAB",
   "ABABABABABABABABABABABABABABABABABABABABABABABABABAB2ABABABABABABABAB2ABABABABABABABABABAB",
   "ABABABABABABABABABABABABABA2BABAB3A2BABA2BA3B2A4BA2BA3B3A2BA2BABABA2BAB2ABA2BA3BABA2B2EAB3",
   "E4ACBACBACBABABABABABABABAB2ABABABABABABABABAB2ACBABA3BABABABABABABABABABABABABABABABABABA",
   "BABABABABABABABABABABAB7A2BA2B2ABA4BABABABAB69E2B26D18U4D12U14D5U7DUDU17F112ABABDUABd2DB3R",
   "Ad4U2ARA3dAdA2BA17dA9B35AB2A3B3ABABABABABABABABABABABAB5ABSABA2B2A51B48ABABABABABABABABABA",
   "BABABABABABABABVF5H2ABABABABABABABABABABABABABABABABABABABABABABABABABABABA2BABABABABABAB2",
   "ABABABABABABABABABABABABABABABABABABABABABABABABABABABABABABABABABABABABABABABABABABABABAB",
   "ABABABdA38d2DR6B41RMd2V2TdF45MFRF2RF2RFd8E27d4E4R2d11a6S3R2TR2V2F11RaR3E32DE10F21I10R4E2F",
   "E99REF7aVF6D2F2VF4E2I10E3V2ER14daEFE30F27d2E89F11Ed14I10E33F9D2VR3Dd2FT2E22F4DF9DF3DF5d2",
   "R15dE25F3d2RdE11d5E24UE7a2d5F9E41DF24aF32GE54FGFEG3F8G4FG2EF7E10F2R2I10RDE15FG2dE8d2E2d2",
   "E22dE7dEd3E4d2FEG3F4d2G2d2G2FEd8Gd4E2dE3F2d2I10E2T2K6VTERFd2F2GdE6d4E2d2E22dE7dE2dE2dE2d2F",
   "dG3F2d4F2d2F3d3Fd7E4dEd7I10F2E3FRd10F2GdE9dE3dE22dE7dE2dE5d2FEG3F5dF2GdG2Fd2Ed15E2F2d2I10R",
   "Td7EF6dFG2dE8d2E2d2E22dE7dE2dE5d2FEGFGF4d2G2d2G2Fd7F2Gd4E2dE3F2d2I10VEK6d10FEdE6d3E3dE4d3",
   "E2dEdE2d3E2d3E3d3E12d4G2FG2d3G3dG3Fd2Ed6Gd14I10K3V6TVd5FG3FE8dE3dE23dE16d2FEF3G4dF3dF4d7F2",
   "dE3dE2d2E2F2d2I10d7RK7VEFG2RE8dE3dE23dE10dE5d2FEGFG5dFG2dG2F2d7G2d5E3dE2F2d2I10dE2Gd12F2G2",
   "E9dE3dE41F2EG3F4dG3dG3FEVd4E3GK7E3F2d2I10K9VE6dFG2dE18d3E24dE9dEd2E7d3Fd4G3F3dFdG8d6I10d2",
   "G2Rd12E48FE2F7d4TE6DF8RI10R2d37E2dEdE5dE24dEdE10FE2F9Ed2E5dDdF7dI10d2E4d32EV3R15VRV3F2V6",
   "I10K10VFVFVFNONOG2E8dE36d4F14GF5RF2E5F11dF36dV8FV6dV2R5V4R2d37E43G2F4GF6GF2G2F2EI10R6E6G2",
   "F2E4F3EG3E2G7E3F4E13FG2F2G6FEGI10G3FV2A38dAd5Ad2B43RDB3E329dE4d2E7dEdE4d2E41dE4d2E33dE4d2",
   "E7dEdE4d2E15dE57dE4d2E67d2F3R9K20d3E16V10d6A86d2B6d2ME620VRE17WE26NOd3E75R3J3E8d7E18F3Gd9",
   "E19F2GR2d9E18F2d12E13dE3dF2d12E52F2GF7G8FG2F11R3DR3TEFd2I10d6K10d6R6MR4F3aFI10d6E35DE53d7",
   "E5F2E34FEd5E70d10E31dF3G4F2G3d4G2FG6F3d4Vd3R2I10E30d2E5d11E44d4E26d6I10Kd3V34E23F2G2Fd2R2",
   "E53GFGF7dFGFG2F8G6F10d2FI10d6I10d6R7DR6d2F14HF31d2F12d20F4GE47FGF5GFG5FG2E8dR2I10R7V10F9V9",
   "R3F2GE30GF4G2F2GF3E2I10E44FGF2G3FGF3G2d8R4E36G8F8G2F2d3R5I10d3E3I10E30D6R2B9ABd5A43d2A3R8",
   "d8F3RF13GF7E4FE6FE2GF2Ed5B44D63B13DB34D37F64ABABABABABABABABABABABABABABABABABABABABABABAB",
   "ABABABABABABABABABABABABABABABABABABABABABABABABABABABABABABABABABABABABABABABABABABABABAB",
   "ABABABABABABAB9ABABABABABABABABABABABABABABABABABABABABABABABABABABABABABABABABABABABABABA",
   "BABABABABABABABABABABAB9A8B6d2A6d2B8A8B8A8B6d2A6d2B8dAdAdAdAB8A8B14d2B8C8B8C8B8C8B5dB2A4CU",
   "BU3B3dB2A4CU3B4d2B2A4dU3B8A5U3d2B3dB2A4CU2dW11a5M6R2PQNP2QNPR8XYa5WR9PQR4L2R3SNOR11SRLR10W",
   "a5da10KDd2K6S3NODK10S3NOdD13d3T34d14F13H4FH3F12d15V2AV4AV2BA3B2A3BVAV2SA5V6AVAVAVA4VBA4BE4",
   "BV2B2A2S5AB4VSV2BVK16J35ABJ4KV2d4S5V5S2V4SV2SV2SV7SV31S2V2SVSV31S268V8NONOV20S2V7NOV81SV30",
   "S25V40S6V72d22V11d21K60V78K22V183SV9SV54S8V111SV248NONONONONONONOK30V44S5NOS31NONONONONO",
   "S16V256S131NONONONONONONONONONONOS63NONOS32NOS258V48S21V2S6V39d2V138A48B48ABA3B2ABABABA4BA",
   "B2AB6D2A3BABABABABABABABABABABABABABABABABABABABABABABABABABABABABABABABABABABABABABABABAB",
   "ABABABABABABABABAB2V6ABABF3ABd5R4KR2B38dBd5Bd2E56d7DRd14FE23d9E7dE7dE7dE7dE7dE7dE7dE7dF32",
   "R2PQPQR3PQRPQR9MR2MRPQR2PQNONONONOR5DR10M2R4MRNR13V2R3NONONONOMd34V26dV89d12V214d26V16WR3V",
   "DEJNONONONONOV2NONONONOMNO2VJ9F4G2MD5V2J3DERV2dE86d2F2U2D2EME90RD3Ed5E43dE94dV2K4V10E32V38",
   "d9VE16V31dK10V30K8VK15V32K10V39K15V320E6592V64E21013DE1143d3V55d9E40D6R2E268DR3E16I10E2d20",
   "ABABABABABABABABABABABABABABABABABABABABABABABEFH3RF10RDABABABABABABABABABABABABABABD2F2",
   "E70J10F2R6d8U23D9U2ABABABABABABAB3ABABABABABABABABABABABABABABABABABABABABABABABABABABABAB",
   "ABABABDB8ABABA2BABABABABDU2ABABEABAB3ABABABABABABABABABABA5BA5BABABABABABABABA4BABA2BABABA",
   "BABABABABAd20D4ABED2BE7FE3FE4FE23G2F2GV4Fd3K6V2TVd6E52R4d8G2E50G16F2d8R2I10d6F18E6R3ERE2F",
   "I10E28F8R2E23F11G2d11RE29d3F3GE47FG2F4G2F2G3R13dDI10d4R2E5FDE9I10E5dE41F6G2F2G2F2d9E3FE8FG",
   "d2I10d2R4E16DE6V3EGFGE50FEF3E2F2E5F2EFEd24E2DR2E11GF2G2R2ED2GFd10E6d2E6d2E6d9E7dE7dB43UD4",
   "B9DU2d4B80E35G2FG2FG2RGFd2I10d6E11172d12E23d4E49d4b2048c6400E366d2E106d38B7d12B5d5EFE10S",
   "E13dE5dEdE2dE2dE108U17V16E363ONV16E64V2E54V8d32E12TV3F16R7NORd6F16RM2L2NONONONONONONONOR2N",
   "OR4L3R3dR4MNONONOR3SMS3dRTR2d4E5dE135d2adR3TR3NORSRMR2I10R2S3R2A26NROULUB26NSOSNORNOR2E10D",
   "E45D2E31d3E6d2E6d2E6d2E3d3T2SUVT2dVS4V2d10a3V2d2E12dE26dE19dE2dE15d2E14d34E123d5R3d4K45d3",
   "V9J53K4V17K2V3dV13d3Vd47V45Fd130E29d3E49d15FK27d4E32K4d9E20JE8Jd5E38F5d5E30dRE36d4E8RJ5d42",
   "A40B40E78d2I10d6A36d4B36d4E40d8E52d11RA11dA15dA7dA2dB11dB15dB7dB2d3E52d12E311d9E22d10E8d24",
   "D6dD42dD9d69E6d2EdE44dE2d3Ed2E23dRK8E23V2K7E31d8K9d48E19dE2d5K5E22K6d3RE26d5RE26d38E56d4K2",
   "E2K16d2K46EF3dF2d5F4E4dE3dE29d2F3d4FK9d7R9d7E29K2RE29K3d32E8VE28F2d4K5R7d9E54d3R7E22d2K8",
   "E19d5K8E18d7R4d12K7d80E73d55A51d13B51d7K6E36F4d8I10d6I10E4DEA22d3F5MDB22d8S2d208K31dE42dF2",
   "Md2E2d16E3DE2d8RV8d33F6E29K10Ed8E22F11K4R5d22E18F4R4d38E21K7d20E23d9GFGE53F15R7d4K20I10FE2",
   "F2Ed9F3GE45G3F4G2F2R2aR4Fd10ad2E25d7I10d6F3E36F5GF8dI10R4EG2Ed8E35FR2Ed9F2GE48G3F9G2E4R4F4",
   "RGFI10ERER3dK20d11E18dE25G3F3G2FGF2R6FE2Fd62E7dEdE4dE15dE10Rd6E47FG3F8d5I10d6F2G2dE8d2E2d2",
   "E22dE7dE2dE5dF2EG2FG4d2G2d2G3d2Ed6Gd5E5G2d2F7d3F5d11E10dEd2EdE38dEG3F6dGd2GdG4dG2FGFEFER2d",
   "R2d8F2d29E53G3F8G2F3GFE4R5I10R2dRFE3d30E48G3F6GFG4F2GF2E2REd8I10d166E47G3F4d2G4F2GF2R23E4",
   "F2d34E48G3F8G2FGF2R3Ed11I10d6R13d19E43FGFG2F6GFERd6I10d6I20d28E27d2FGFG2F4GF5d4I10K2R3VE7",
   "d185E44G3F9GF2Rd100A32B32I10K9d12E8d2Ed2E8dE2dE24G6dG2d2F2GFEGEGFR3d9I10d70E8d2E39G3F4d2F2",
   "G4FEREGd27EF10E40F6GEF4R8Fd8EF6G2F3E46F13GF2R3ER5d13E73d7R10d86FGF3GFGd88E33Rd14I10d6E9d",
   "E37GF7dF6GFER5d10I10K19d3R2E30d2F22dGF7GF2GF2d73E7dE2dE38F6d3FdF2dF7EFd8I10d6E6dE2dE32G5d",
   "F2dG2FGFEd7I10d6E41DE2d4I10d246E19F2G2R2d7F2EGE13dE34G2F5d3G2FGFR13I10Fd85Ed15K21V8T4V17",
   "d13RE922d102J111dR5d11E196d2636E97R2d13E1072a16FE6F15d10E3995d5E583d6841E30F12G3F3I10d1734",
   "E569d7E31dI10d4R2E79dI10d6E30d2F5Rd10E48F7R5V4D4RVd10I10dK7dE21d5E19d432D3E40D2R3I10d198",
   "A32B32K23R4d5A25d2B25d44E75d4FEG55d7F4D13d64D2RDFd11G2D2J3d9E7382d41E32d97E115d8701D4dD7d",
   "D2dE291d15Ed29E3d2Ed14E4d8E396d2308E107d5E13d3E9d7E10d2VF2Ra4d3932V240I10V3d3V436d6V23d15",
   "V16Sd15F46d2F23d9V116d60V246d10V39d2V60G2F3V3G6a8F8V2F7V30F4V61d21V66F3Vd122K20d12K20d12",
   "V87d9K25d135A26B26A26B7dB18A26B26AdA2d2Ad2A2d2A4dA8B4dBdB7dB11A26B26A2dA4d2A8dA7dB26A2dA4d",
   "A5dAd3A7dB26A26B26A26B26A26B26A26B26A26B26A26B28d2A25SB25SB6A25SB25SB6A25SB25SB6A25SB25SB6",
   "A25SB25SB6ABd2I50V512F55V4F50V8FV14FV2R5d15F5dF15d1104B10EB20d6B6d213F7dF17d2F7dF2dF5d5D62",
   "d33Fd112E45d3F7D7d2I10d4EVd320E30Fd17E44F4I10d5Td464E27DF4I10d214E30F2EI10d4Rd192E31dE3FE2",
   "FE7F2E5Fd8EDd224E7dE4dE2dE15dE197d2K9F7d41A34B34F7Dd4I10d4R2d785K59VK3TK4d76K45VK15d194E4d",
   "E27dE2dEd2EdE10dE4dEdEd6Ed4EdEdEdE3dE2dEd2EdEdEdEdEdE2dEd2E4dE7dE4dE4dEdE10dE17d5E3dE5dE17",
   "d52S2d270V44d4V100d12V15d2V15dV15dV37d10K13V161d56V29d13V44d4V9d7V2d14V6d154V251U5V729d3",
   "V17d3V13d3V218d6V12d4Vd15V12d4V56d8V10d6V40d8V30d2V12d4V2d14S9d39V344d8V14d2V13d3V11d3V57d",
   "Vd4V16d2V12d4V10d7V147dV92I10Vd1029E42720d32E4382d2E5774d2E7473d15E622d2466E542d1506E4939",
   "d5E8490d707463ad30a96d128F240d65040c65534d2c65534d2"]

/-- The runs of all code points, as a table. -/
def runs : Array Run :=
  let s := runTexts.flatMap String.toList
  (Run.read s.length 0 s).toArray

/-- The general category of a character. -/
def category (c : Char) : Category :=
  match runs.find? fun run => run.first ≤ c.toNat && c.toNat < run.stop with
  | some run => run.category
  | none => .unassigned

/-! ## Closed ranges -/

/-- Whether a code point lies in one of the closed ranges of a list. -/
def inRanges (ranges : List (Nat × Nat)) (c : Char) : Bool :=
  ranges.any fun (first, last) => first ≤ c.toNat && c.toNat ≤ last

/-- The white space code points, as closed ranges: the ASCII ones, the next-line control, and the
spaces and separators of general punctuation. -/
def blanks : List (Nat × Nat) :=
  [(9, 13), (32, 32), (133, 133), (160, 160), (5760, 5760), (8192, 8202), (8232, 8233),
   (8239, 8239), (8287, 8287), (12288, 12288)]

/-- The white space characters. -/
def isBlank (c : Char) : Bool :=
  inRanges blanks c

/-- The code points that the latest edition of the standard has assigned, as closed ranges. -/
def recent : List (Nat × Nat) :=
  [(2191, 2191), (3164, 3164), (3292, 3292), (6863, 6877), (6880, 6891), (8385, 8385),
   (11158, 11158), (42958, 42959), (42962, 42962), (42964, 42964), (42993, 42993), (64451, 64466),
   (64912, 64913), (64968, 64974), (67904, 67929), (69317, 69319), (69328, 69336), (69370, 69371),
   (72544, 72551), (73136, 73179), (73184, 73193), (93856, 93880), (93883, 93907), (94194, 94198),
   (100344, 100351), (101641, 101662), (101760, 101874), (118010, 118012), (118458, 118480),
   (118496, 118512), (124608, 124638), (124640, 124661), (124670, 124671), (128728, 128728),
   (128887, 128890), (129232, 129240), (129620, 129623), (129674, 129674), (129678, 129678),
   (129736, 129736), (129741, 129741), (129770, 129770), (129775, 129775), (130042, 130042),
   (177978, 177983), (183970, 183981), (205744, 210041)]

/-- The letters that were lowercase in the edition before and have no case since. -/
def formerlyLowercase : List (Nat × Nat) :=
  [(661, 661)]

end JsonSieve.Unicode
