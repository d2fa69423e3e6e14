import AssetResolver.Roundtrip
import AssetResolver.Resolution.Leftover
import AssetResolver.Casc.Confined
import AssetResolver.Casc.ExtractedOnly
import AssetResolver.Casc.Retarget
import AssetResolver.Casc.Selection
import AssetResolver.Casc.ConfigKeys
import AssetResolver.Casc.Debris
import AssetResolver.Casc.Salsa20
import AssetResolver.Casc.LocalFiles
import AssetResolver.Listfile.Shared
import AssetResolver.Listfile.Refinement
import AssetResolver.Hotfix.Import
import AssetResolver.Hotfix.Lookup
import AssetResolver.Hotfix.MergeStore
import AssetResolver.Casc.Kept
import AssetResolver.Formats.Metadata
import AssetResolver.Formats.BlteBuilder
import AssetResolver.Formats.EncodingRewrite
import AssetResolver.Formats.RootRewrite
