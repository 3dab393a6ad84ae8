import Opentxs.Display.Scale

/-! The scales that are built in, each combination of symbols, ratios and limits once. -/

namespace Opentxs.Display

def plain (ratios : List Ratio) (min max : UInt8) (suffix : String) : Scale where
  prefix_ := []
  suffix_ := suffix.toList
  ratios
  defaultMin := some min
  defaultMax := some max

def powerOfTen (exponent : Int) : (max : UInt8) → (suffix : String) → Scale := plain [(10, exponent)] 0

def dollars : Scale := { plain [(10, 0)] 2 3 "" with prefix_ := ['$'] }

def millions : Scale := { plain [(10, 6)] 0 9 "MM" with prefix_ := ['$'] }

def builtIn : List Scale :=
  ["", "jager", "mote", "pack", "sats", "sun", "wei"].map (powerOfTen 0 0) ++
  ["₥"].map (powerOfTen (-3) 0) ++ ["¢"].map (powerOfTen (-2) 1) ++
  ["photons", "μŁ"].map (powerOfTen 2 0) ++
  ["", "XEC", "bits", "tXEC", "μBCH", "μBSV", "μBTC", "μDASH"].map (powerOfTen 2 2) ++
  ["Kwei"].map (powerOfTen 3 0) ++ [""].map (powerOfTen 3 3) ++ [""].map (powerOfTen 4 4) ++ ["mŁ"].map (powerOfTen 5 3) ++
  ["", "kXEC", "ktXEC", "mBCH", "mBSV", "mBTC", "mDASH"].map (powerOfTen 5 5) ++
  ["Mwei"].map (powerOfTen 6 0) ++ ["", "TRX", "USDC", "USDT", "XAUt"].map (powerOfTen 6 6) ++
  [""].map (powerOfTen 7 7) ++ ["Ł"].map (powerOfTen 8 6) ++
  ["", "BCH", "BNB", "BSC", "BSV", "CRO", "HEX", "MXEC", "MtXEC", "WBTC", "tBCH", "tBSV", "tBTC", "tDASH", "units", "₿"].map
    (powerOfTen 8 8) ++
  ["Gwei"].map (powerOfTen 9 0) ++ ["", "CSPR", "DAWGS", "tCSPR"].map (powerOfTen 9 9) ++ [""].map (powerOfTen 10 10) ++
  ["Szabo"].map (powerOfTen 12 3) ++ [""].map (powerOfTen 12 12) ++ ["Finney"].map (powerOfTen 15 6) ++
  [""].map (powerOfTen 15 15) ++ [""].map (powerOfTen 16 16) ++ ["ETH"].map (powerOfTen 18 9) ++
  ["", "APE", "ARB", "BNB", "BUSD", "CHZ", "CRO", "DAI", "FRAX", "FTM", "GRT", "HEX", "INJ", "LINK", "MANA", "MATIC", "MKR",
    "OKB", "PAXG", "PEPE", "QNT", "RNDR", "RPL", "SAND", "SHIB", "SNX", "THETA", "TRX", "TUSD", "UNI", "USDD", "USDP", "USDT",
    "VEN", "rETH", "stETH", "stkAAVE", "tDAI", "tUSDC"].map (powerOfTen 18 18) ++
  [""].map (powerOfTen 19 19) ++ ["Kether"].map (powerOfTen 21 12) ++ ["Mether"].map (powerOfTen 24 15) ++
  [""].map (powerOfTen 24 24) ++ ["Gether"].map (powerOfTen 27 18) ++
  [plain [(2, 30)] 0 11 "PKT", plain [(2, 30), (10, -3)] 0 8 "mPKT", plain [(2, 30), (10, -6)] 0 5 "μPKT",
    plain [(2, 30), (10, -9)] 0 2 "nPKT", dollars, millions]

/-- The symbols hold nothing that is kept of a text, and the decimals fit a byte. -/
structure Legible (scale : Scale) : Prop where
  skipped : ∀ char ∈ scale.prefix_ ++ scale.suffix_, isKept char = false
  powers : ∀ ratio ∈ scale.ratios, 0 < ratio.1
  bounded : 0 ≤ maximumDecimals (calculateIncomingRatio scale.ratios) ∧ maximumDecimals (calculateIncomingRatio scale.ratios) ≤ 255

theorem builtIn_legible : ∀ scale ∈ builtIn, Legible scale := by
  have symbols : ∀ scale ∈ builtIn, (scale.prefix_ ++ scale.suffix_).all (fun char => isKept char == false) = true := by
    decide +kernel
  have powers : ∀ scale ∈ builtIn, ∀ ratio ∈ scale.ratios, 0 < ratio.1 := by decide +kernel
  have bounds : ∀ scale ∈ builtIn, 0 ≤ maximumDecimals (calculateIncomingRatio scale.ratios) ∧
      maximumDecimals (calculateIncomingRatio scale.ratios) ≤ 255 := by decide +kernel
  intro scale member
  refine ⟨fun char there => ?_, powers scale member, bounds scale member⟩
  exact beq_iff_eq.mp (List.all_eq_true.mp (symbols scale member) char there)

end Opentxs.Display
