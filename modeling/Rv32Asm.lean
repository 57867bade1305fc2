import Rv32Asm.Main
import Rv32Asm.Playground.Page
import Rv32Asm.Playground.Session
import Rv32Asm.Proofs.Decoding
import Rv32Asm.Proofs.Encoding
import Rv32Asm.Proofs.Grammar
import Rv32Asm.Proofs.Layout
import Rv32Asm.Proofs.Linking
import Rv32Asm.Proofs.Operands
import Rv32Asm.Proofs.Outcome
import Rv32Asm.Proofs.Phrases
import Rv32Asm.Proofs.Placement
import Rv32Asm.Proofs.Ranges
import Rv32Asm.Proofs.Records
import Rv32Asm.Proofs.References
import Rv32Asm.Proofs.Safety
import Rv32Asm.Proofs.Tidy
import Rv32Asm.Proofs.Emission
import Rv32Asm.Proofs.ByteOrders
import Rv32Asm.Proofs.Reading
import Rv32Asm.Proofs.Wire
import Rv32Asm.Proofs.Documents
import Rv32Asm.Proofs.Extensions
import Rv32Asm.Proofs.Interleaving
import Rv32Asm.Proofs.FaultSpans
import Rv32Asm.Proofs.Composition
import Rv32Asm.Proofs.LabelOwners
import Rv32Asm.Proofs.TidyText
import Rv32Asm.Proofs.Saving
import Rv32Asm.Proofs.Bindings
import Rv32Asm.Proofs.Resolution
import Rv32Asm.Proofs.Literals
import Rv32Asm.Proofs.ConfigDocuments
import Rv32Asm.Proofs.FilePlaces
import Rv32Asm.Proofs.Delivery
import Rv32Asm.Proofs.Numerals
import Rv32Asm.Proofs.SourceLines
import Rv32Asm.Proofs.TidyForm
import Rv32Asm.Proofs.InstructionText
import Rv32Asm.Proofs.ReadBack
import Rv32Asm.Proofs.LetterCase
import Rv32Asm.Proofs.OperandRoles
import Rv32Asm.Proofs.HoverTexts
import Rv32Asm.Proofs.HoverRoles
import Rv32Asm.Proofs.HoverLabels
import Rv32Asm.Proofs.Shorthands
import Rv32Asm.Proofs.Repacking
import Rv32Asm.Proofs.Accounting
import Rv32Asm.Proofs.HexText
import Rv32Asm.Proofs.ListingText
import Rv32Asm.Proofs.SymbolOrder
import Rv32Asm.Proofs.Presentation
import Rv32Asm.Proofs.Padding
import Rv32Asm.Proofs.OffsetWrap
import Rv32Asm.Proofs.SymbolListings
