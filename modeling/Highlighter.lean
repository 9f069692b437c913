import Highlighter.Main
import Highlighter.Pattern.Words
import Highlighter.Proofs.Changes
import Highlighter.Proofs.ConfigText
import Highlighter.Proofs.Insertion
import Highlighter.Proofs.Listings
import Highlighter.Proofs.LiveBranches
import Highlighter.Proofs.Locations
import Highlighter.Proofs.Passes
import Highlighter.Proofs.Progress
import Highlighter.Proofs.Renaming
import Highlighter.Proofs.SecondRun
import Highlighter.Proofs.Transcripts
import Highlighter.Proofs.MacroArguments
import Highlighter.Proofs.Checks
import Highlighter.Proofs.FileTrees
import Highlighter.Proofs.Invocations
import Highlighter.Proofs.Declarations
import Highlighter.Proofs.Keywords
import Highlighter.Proofs.StringLiterals
import Highlighter.Proofs.SpacedNames
import Highlighter.Proofs.StrayCharacters
import Highlighter.Proofs.WordTokens
import Highlighter.Proofs.TouchingWords
import Highlighter.Proofs.DirectiveTexts
import Highlighter.Proofs.DirectiveEnds
import Highlighter.Proofs.GroupTokens
import Highlighter.Proofs.FileArguments
import Highlighter.Proofs.LanguageNames
import Highlighter.Proofs.StackShapes
import Highlighter.Proofs.GuardedRules
import Highlighter.Proofs.WordTexts
import Highlighter.Proofs.AdjacentGroups
