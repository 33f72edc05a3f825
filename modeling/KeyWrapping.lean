import KeyWrapping.Block
import KeyWrapping.Bytes
import KeyWrapping.Cipher.Aes
import KeyWrapping.Cipher.Basic
import KeyWrapping.Cipher.Belt
import KeyWrapping.Cipher.Catalogue
import KeyWrapping.Cipher.Delivery
import KeyWrapping.Cipher.Field
import KeyWrapping.Cipher.KeyLengths
import KeyWrapping.Cipher.Memory
import KeyWrapping.Cipher.Quad
import KeyWrapping.Command.Basic
import KeyWrapping.Command.Inspection
import KeyWrapping.Command.Item
import KeyWrapping.Command.Spec
import KeyWrapping.Command.Tool
import KeyWrapping.Delivery
import KeyWrapping.Error
import KeyWrapping.Foreign.Call
import KeyWrapping.Foreign.Memory
import KeyWrapping.Foreign.Session
import KeyWrapping.Foreign.Status
import KeyWrapping.Hex
import KeyWrapping.Hex.Cursor
import KeyWrapping.Kek.Aes
import KeyWrapping.Kek.Belt
import KeyWrapping.Kek.Object
import KeyWrapping.Main
import KeyWrapping.Mask
import KeyWrapping.Mask.Register
import KeyWrapping.Memory
import KeyWrapping.Message
import KeyWrapping.Message.Stream
import KeyWrapping.Proofs.AesCipher
import KeyWrapping.Proofs.AesSubstitution
import KeyWrapping.Proofs.BeltCipher
import KeyWrapping.Proofs.BlockByBlock
import KeyWrapping.Proofs.BlockRuns
import KeyWrapping.Proofs.BlocksInMemory
import KeyWrapping.Proofs.CallerBuffers
import KeyWrapping.Proofs.CipherRuns
import KeyWrapping.Proofs.CommandLines
import KeyWrapping.Proofs.Demands
import KeyWrapping.Proofs.EntryPoints
import KeyWrapping.Proofs.Exactness
import KeyWrapping.Proofs.FailedUnwraps
import KeyWrapping.Proofs.FilledFormats
import KeyWrapping.Proofs.ForeignResults
import KeyWrapping.Proofs.HeadedExact
import KeyWrapping.Proofs.HexExact
import KeyWrapping.Proofs.HexReading
import KeyWrapping.Proofs.HexText
import KeyWrapping.Proofs.IndependentBlocks
import KeyWrapping.Proofs.KekObjects
import KeyWrapping.Proofs.KeyedOperations
import KeyWrapping.Proofs.LastMessages
import KeyWrapping.Proofs.MaskFormulas
import KeyWrapping.Proofs.Masks
import KeyWrapping.Proofs.MovedFrom
import KeyWrapping.Proofs.OperationDemands
import KeyWrapping.Proofs.OptionGrammar
import KeyWrapping.Proofs.OptionWords
import KeyWrapping.Proofs.Ownership
import KeyWrapping.Proofs.PaddedContent
import KeyWrapping.Proofs.PaddedExact
import KeyWrapping.Proofs.Quads
import KeyWrapping.Proofs.Refusals
import KeyWrapping.Proofs.Registers
import KeyWrapping.Proofs.RowComparisons
import KeyWrapping.Proofs.Separation
import KeyWrapping.Proofs.ShiftRegister
import KeyWrapping.Proofs.ToolRoundTrips
import KeyWrapping.Proofs.ToolRuns
import KeyWrapping.Proofs.ToolTasks
import KeyWrapping.Proofs.UnpaddedExact
import KeyWrapping.Proofs.WideBlockBuffers
import KeyWrapping.Proofs.WideBlockRecurrence
import KeyWrapping.Proofs.WideBlockRuns
import KeyWrapping.Proofs.WideBlocks
import KeyWrapping.Proofs.Words
import KeyWrapping.Proofs.WordsInMemory
import KeyWrapping.Version
import KeyWrapping.WideBlock
import KeyWrapping.WideBlock.Buffer
import KeyWrapping.Word
import KeyWrapping.Word.Register
import KeyWrapping.Wrap.Headed
import KeyWrapping.Wrap.Padded
import KeyWrapping.Wrap.Register
import KeyWrapping.Wrap.Service
import KeyWrapping.Wrap.Unpadded
