import FlipFlop.DatagramSafety
import FlipFlop.DatagramHeaders
import FlipFlop.AppRules
import FlipFlop.AppDelivery
import FlipFlop.AppRecovery
import FlipFlop.AppShift
import FlipFlop.AppVocabulary
import FlipFlop.AppCatchUp
import FlipFlop.AppRestart
import FlipFlop.AppWire
import FlipFlop.DiscoveryRun
import FlipFlop.DiscoveryAgreement
import FlipFlop.DiscoveryNonces
import FlipFlop.DiscoveryAnalysis
import FlipFlop.ControlMessages
import FlipFlop.UpdateBounds
import FlipFlop.UpdateTransfer
import FlipFlop.UpdateAdversary
import FlipFlop.UpdateFleet
import FlipFlop.VersionText
import FlipFlop.VersionOrder
