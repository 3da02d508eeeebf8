import ScopeFlow.Text.Runs

/-!
# Characters of identifiers

The characters an identifier may start with and go on with: letters, digits and the underscore in ASCII, and beyond it
the characters of the properties `XID_Start` and `XID_Continue` of Unicode 14.
-/

namespace ScopeFlow

/-- The runs of `XID_Start` beyond ASCII. -/
def identifierStartRuns : List Nat := runsOf <|
  "gOBKBEBFXBbFBrQEMOFHBBBeZFBCDDBBGBBDBBBUBdFBfJIgKBbMCBGbPcTbBEEbTbRbJCBdVBBPCHCKDCBQBBbEbDdLLBYbHJCEBFWEBJBDBXZHLFYBGRbQcG" ++
  "cCDBSBHKPQEICCCWBHBBDEDBQBNCBDOCKBIGECCWBHBCBCBCbFEBBTDQJBDBWBHBCBFDBSBPCXBLICCCWBHBCBFDBbECBDPBRBBGDDBEDCBBBCDCDDDMWBcAIB" ++
  "DBXBQDBbADCBCCbEBEIBDBXBKBFDBbFCBCPCRJBDBbPCBQBFDIDYGFSDYBJBBCHcGbWBBNHcGCBBBFBYBBBKBBKBCFBBVEbGBcLIBbKbBFeLbRUBQGEEDBDCHD" ++
  "ENMBRbMBBFBCbRBmVBECHBBBECbPBECbHBECHBBBECPBcFBECcPbLQQdICGDxWCRBbAFcXDLHSNTOSONBDPcAbJBEBcPdLHbPBBFcSKbFbXbECFLbSEbAcCXJc" ++
  "BdEBdPbVRIcCbENCKbSbAbKbPDKbKCJHbRCDbPEBGBCDBFhKcMkSCGCbMCGCIBBBBBBBbFCcBBHBBDDBHDECGENFDBHeMBNBQNdXBEBCKBBCGGBBBBBBQCEFFE" ++
  "BRbPdzBiVGEDCMbMBBFBCcEHBQXJHBHBHBHBHBHBHBHvEDZJHFCFEdIGDBdMBEFbRBdQRbGbWQtSjtOcMbguFcPbUCkJDQKCUbVQbFCdCbNJCdZCcMFCBBBFYQ" ++
  "BDBEBXbDcAObYcKGDBBCLbCKXZbDHbVbCBQFBKKFBbPXDBIUXDBDbYBBDCCFCBBBYDCLHDMGCGCGJHBHBbRBOGeLbDqnSMXEbXmnCoCCeCbMHMFFBBKBNBFBBB" ++
  "CBCBeEbHfJGiKScMCcCbOKePBBBDBBBBBBBBeWbKbAGbALcECbFDGCGCGCDbJMBbABTBCBPCObIeTcRcBkHbDDbXbVbGNbEFbMKbECbKEIBFbQgCSbKEbKEbOI" ++
  "cAMLBPBHBCBLBPBHBCcPlZJWKIYGBbQBJcRGCBBbSBCDBCXKXJbFcNTBCKWKbAcScEGCcMBPEBDBbDbQbDDbDbJIBbCbBcCKWKTNSeGcVcDbZNbZNbKnKbQGCd" ++
  "AbDKBIWbQSbUVbBXMcBcFCCBNbTbGZbAbKbDBCBIbJDBMbWOEVBBBbJSBZdGHBBBEBPBKHbVbMICCCWBHBCBFDBSBMFgCcBSEUDbEbWUCBBhCbVbPEbKbWUBcH" ++
  "bRNBcTbBbLHhDbSeMcMbFICBCIBCBYPBBBdQICbNQBBBbCBKbOHBVBLbUTBScVkDJBbLRBbXbEeIHBCBbMVBZGBCBbGOBmPThHBdBbjMdYeHRhOdxKdTPbpFfz" ++
  "TwLmuBvXHbFRdBRbESbWQEbFVFTbaMcMeYcXFBcONcMCBBbCjcAIbvQbQJnfREBHBCBlFbTDREIpGdkUeDFNDJHKiwKdHBcTBCCBCCCEBMBBBHBcNBECIBHBbC" ++
  "BEBFBBDHBnCCZBZBbFBZBbFBZBbFBZBbFBZBIcsYbFsNbTKHQBmJbESbSbwUHBEBCBPBhPcHcQHBbuIEBbBBCBBCBBKBEBBBBGBEBBBBBBDBCBBCBBBBBBBBBB" ++
  "CBBCEBHBEBEBBBKBRFDBFBRgoAclfCbGgdTHiOCinQOlbLepJuWcfYhhZ"

/-- The runs beyond ASCII of what `XID_Continue` has in addition. -/
def identifierMarkRuns : List Nat := runsOf <|
  "hBBwMeIXBjRFkFbTBBBCBCBBcULbWbFGBdXHCGCCBECKXBbEbBdNLPKbHJJBYEBJBDBFbRDcIIbQYBbHcCDBSBHKCCKRDcEBBHCCCDJBKCCKOBCDcEBBFECCDD" ++
  "BUMDBLDcEBBIBDBDUCCKKGBDcEBBHCCCDHDKCCKSBcHFDDBEJBOKQFcDBBHBDBEHCLCCKRDcEBBHBDBEHCLCCKQEcDCBHBDBEJBKCCKRDcSBEGBBBIGKCCcJBB" ++
  "IMIBKdJBBKLGCKcKCGKLBBBBBECbXUBCFLBbKJBdWUBKMEEDBDCHDENMBPbbBDJJbjSEbCDbDCbECcMbGJBCKbHDBLfNBeOMEMKKeYLcIFcFKBbDCLGKWOBQbX" ++
  "FbVRLKRJMDbENCKbSObWUIKGKeODBVEBGBCDhQcMwDCTBeTNEBDMeoCDfLBdSbGvIGeBCbsnDKcRBEKbGCdCCkMBDBEBXFEBdFCbYSKKGSNLbCIZNbSEbVOPKL" ++
  "BKKbVOMBICCKbHDbYBBDCCFCBBbPFFCjCIBCCKbdzGBbcJQQQDCYDhKKbLBdQCxHBiSBfTFlHKcaPDBCFEbODEBgJCwBEIKoFCfXLbXEeSDcBPbFLCCKEbTLHB" ++
  "bTKGDbKOBKFCbSBMDbWOIEBMdEMGBgEMFKGEcDCBHCCCDJBKCCHDFhKSJKEBdDUMKiFHCJbBCdERPKdDNIKdFPEKjIPgJKcSGBCCEBBBCMKePHCHDBbCKbOHBE" ++
  "IBJLbUQpPIBIQKcEWBOeSGDBBCBHBBIKbWFBCBFIKmREbcoNKdIKbMFcHHZKbmZBBcDHEdDBLCbdaXCgyZbUCXuWFDGIICHbEEfSDccNbYtScDEbYIBOBWFBPc" ++
  "aIHBRCHBCBFkBHJKnSBcJOcfMHeFHFKhbAKbsvgWjG"

def isIdentifierStart (c : Char) : Bool :=
  c.isAlpha || c == '_' || (c.toNat ≥ 0x80 && memberOfRuns identifierStartRuns c.toNat)

def isIdentifierContinue (c : Char) : Bool :=
  isIdentifierStart c || c.isDigit || (c.toNat ≥ 0x80 && memberOfRuns identifierMarkRuns c.toNat)

end ScopeFlow
