import ScopeFlow.Text.IdentifierChars

/-!
# Printable characters

A character is printable unless it is a control, format, surrogate, private use or unassigned character of Unicode 14 or
a separator other than the ASCII space.
-/

namespace ScopeFlow

/-- The runs of the printable characters beyond ASCII that no identifier has. -/
def signRuns : List Nat := runsOf <|
  "gFJBCBHBBBCBFXBbFBrQEMOFHBBBReNBEBDBFCeIBfJBFCiAGbPCCDbUBBBCBCBbSCRKLBBDcWEdYBJBKBTCBOiYEECbWPbFBbPBiLCKBeZKBBeQBeRCeWBBGe" ++
  "QLeUJEBhUBIHRKeSBcWBPBKCgJXCGKLBBBBBEcTBcEIBGBNeHGdACdNBxOJJLTKdYBxWCbSCdADcTCgBDBEUKGLlXBDCfWbIbECeYHBGQBfZRJLeVEcHFcKCcM" ++
  "ILBbcRBBDLDNDNDNCRYIPCTBKRBDLBPRbHbCEBDbBCBEBCKBBCGGBBBBBBQCEFFEBRbPDEzNZLVcrSCbGBeBiVGOHeIBfNdQbIbABdLMiGbAMFEDZPBFCFDdNC" ++
  "DBdMBfSQbGbKbCbFBsMjtOcMbguIcDcDCkJDdSEKBeLGIXJCdZCgBEEKcGEdICbODBBbXCbVBdTNQCeUEXDdWCQCeBBOCeXBbeaFBfGRfZGiKSeXBbQGQKWDCY" ++
  "DDBTBEEBBBBBBBBBBBBBBBfAPKHbAEBBbALeSHBHNCjYDEbTDJcBbABNDBbVbTiUbBbKEeTBbWBpYBbcPJXJbNJcXFWGDBbFBeUCCQCbUcMJHJbKDbDDbOBbIM" ++
  "cOHYIYIZEMHmSGnObFbUBeHKbQJbSEcHHeTHEUdHCBEeWEbWCdBEEBNBBDBUcPGeDBqBFKCBBeABjQXeBDbCNcYBeYGjRBgSJdDDfZBdOIdFDBFpYFUTDCyVCh" ++
  "RbYNBbrSFejCCwdVCfDBcNJECVHbeSbBmPBbdbLBCBhcAeMcIjMKbNCcIFDWCHbEEcJVcODBfYUMdJJZbgIBZBbFBZBbFBZBbFBZBbFBZBcItScDEbYIBOBHco" ++
  "PBqPBceXJfMCbeFcQcYcJqSCkKbSEdWMPCPBPBbLKgScEbDNbSEJHCOGfYblWFQDNDeMMdLHMEBPMEcEIKGbOIbECCdAnCMOCFDFDHJbDDLFGKKGIIHJfRBcD"

def isPrintable (c : Char) : Bool :=
  if c.toNat < 0x80 then 0x20 ≤ c.toNat && c.toNat < 0x7f else isIdentifierContinue c || memberOfRuns signRuns c.toNat

end ScopeFlow
