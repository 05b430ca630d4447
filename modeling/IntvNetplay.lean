import IntvNetplay.Console.Gate
import IntvNetplay.Console.Prematch
import IntvNetplay.Console.Transact
import IntvNetplay.Relay.Fanout
import IntvNetplay.Relay.Frames
import IntvNetplay.Relay.Agree
import IntvNetplay.Relay.Views
import IntvNetplay.Relay.Matches
import IntvNetplay.Console.Cksum
import IntvNetplay.Relay.Reassembly
import IntvNetplay.Relay.CrcPairs
import IntvNetplay.Relay.CrcRounds
import IntvNetplay.Console.Apply
import IntvNetplay.Console.Cuts
import IntvNetplay.Console.Record
import IntvNetplay.Console.Tables
import IntvNetplay.Console.Skew
import IntvNetplay.Console.Detect
import IntvNetplay.Console.Transfer
import IntvNetplay.Console.Username
import IntvNetplay.Console.Roster
import IntvNetplay.Console.Counts
import IntvNetplay.Console.Begin
import IntvNetplay.Relay.Publisher
import IntvNetplay.Relay.Endpoint
import IntvNetplay.Relay.PyPublisher
