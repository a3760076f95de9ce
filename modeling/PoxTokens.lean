import PoxTokens.Cursor
import PoxTokens.Main
import PoxTokens.Proofs.Tiling
import PoxTokens.Scan.Json
import PoxTokens.Proofs.Acceptance
import PoxTokens.Proofs.FirstCharacter
import PoxTokens.Proofs.LexemeSelection
import PoxTokens.Proofs.Separable
import PoxTokens.Proofs.Language
import PoxTokens.Proofs.MaximalMunch
import PoxTokens.Proofs.Lookahead
import PoxTokens.Proofs.Locality
import PoxTokens.Proofs.Refinement
import PoxTokens.Proofs.Composition
import PoxTokens.Proofs.Respacing
import PoxTokens.Proofs.StreamIndex
import PoxTokens.Proofs.TextListing
import PoxTokens.Proofs.JsonListing
import PoxTokens.Proofs.CommandRun
import PoxTokens.Proofs.ListingFlags
import PoxTokens.Proofs.FlagsOverSettings
import PoxTokens.Proofs.EventLog
import PoxTokens.Proofs.KeywordLookup
import PoxTokens.Proofs.RuleOrder
import PoxTokens.Proofs.ByteScan
import PoxTokens.Proofs.CursorSplit
import PoxTokens.Proofs.BoundedOutput
import PoxTokens.Proofs.SettingsLookup
import PoxTokens.Proofs.SourceText
import PoxTokens.Proofs.SettingsDocument
