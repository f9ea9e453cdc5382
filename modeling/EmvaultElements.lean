import EmvaultElements.Resume
import EmvaultElements.Wallets
import EmvaultElements.CursorChain
import EmvaultElements.Overlap
import EmvaultElements.UtxoHistory
import EmvaultElements.AncestorSearch
import EmvaultElements.ScriptIndex
import EmvaultElements.FaultySigner
import EmvaultElements.Sortedmulti
import EmvaultElements.ForeignPset
import EmvaultElements.Gate
import EmvaultElements.DescriptorText
import EmvaultElements.Migration
import EmvaultElements.Summary
import EmvaultElements.Unblinding
import EmvaultElements.Pipeline
import EmvaultElements.Persistence
import EmvaultElements.Accounts
import EmvaultElements.Batches
import EmvaultElements.Blinding
import EmvaultElements.Rpc
import EmvaultElements.Conservation
import EmvaultElements.Balance
import EmvaultElements.Membership
