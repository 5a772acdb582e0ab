import CloudStorage.Interaction.Program
import CloudStorage.Interaction.Routine
import CloudStorage.Bytes
import CloudStorage.Packets
import CloudStorage.FileSystem
import CloudStorage.Interaction.Dialogue
import CloudStorage.Interaction.Link
import CloudStorage.Interaction.Parallel
import CloudStorage.System
import CloudStorage.Wrapper
import CloudStorage.File
import CloudStorage.Worker
import CloudStorage.Client
import CloudStorage.Calls
import CloudStorage.Counters
import CloudStorage.Streams
import CloudStorage.Transfers
import CloudStorage.Login
import CloudStorage.Faults
import CloudStorage.Channel
import CloudStorage.Folders
import CloudStorage.Confinement
import CloudStorage.Isolation
import CloudStorage.Handshake
import CloudStorage.Server
import CloudStorage.Refusal
import CloudStorage.Admission
import CloudStorage.Damage
import CloudStorage.Exchange
import CloudStorage.Listing
import CloudStorage.Interaction.Shared
import CloudStorage.Interaction.Serial
import CloudStorage.Store
import CloudStorage.Names
import CloudStorage.Disk
import CloudStorage.Caution
import CloudStorage.Races
import CloudStorage.KeyMessages
import CloudStorage.Codecs
import CloudStorage.NameFields
import CloudStorage.Cipher.Cbc
import CloudStorage.TextAes
import CloudStorage.Interaction.May
import CloudStorage.Prompts
import CloudStorage.Course
import CloudStorage.Menu
import CloudStorage.Unbuilt
import CloudStorage.Socket
import CloudStorage.Interaction.Numbered
import CloudStorage.Conversation
import CloudStorage.FileMap
import CloudStorage.Chunks
import CloudStorage.Filing
import CloudStorage.Requests
import CloudStorage.Serving
import CloudStorage.Downloads
import CloudStorage.Deeds
import CloudStorage.Rounds
import CloudStorage.Interaction.Overrun
import CloudStorage.Lockstep
import CloudStorage.HostOrders
import CloudStorage.Fidelity
import CloudStorage.Interaction.Journal
import CloudStorage.KeyAgreement
import CloudStorage.Cipher.Ccm
import CloudStorage.AesCcm
import CloudStorage.Interaction.Recital
import CloudStorage.HonestLogin
import CloudStorage.WholeSession
import CloudStorage.Interaction.Trace
import CloudStorage.Gate
import CloudStorage.Addresses
import CloudStorage.Tenants
import CloudStorage.Interaction.Custody
import CloudStorage.Interaction.Realizes
import CloudStorage.Objects
import CloudStorage.ObjectLogin
import CloudStorage.Attentive
import CloudStorage.EndToEnd
import CloudStorage.Typed
