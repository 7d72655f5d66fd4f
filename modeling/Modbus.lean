import Modbus.Proofs.AnswerForm
import Modbus.Proofs.ErrorDetection
import Modbus.Proofs.FramingIndependence
import Modbus.Proofs.ResponseCodec
import Modbus.Proofs.Resynchronisation
import Modbus.Proofs.SerialSoundness
import Modbus.Proofs.AnswerDelimiting
import Modbus.Proofs.GivingUp
import Modbus.Proofs.Judgement
import Modbus.Proofs.ReadJudgement
import Modbus.Proofs.WriteJudgement
import Modbus.Proofs.RequestDiscipline
import Modbus.Proofs.TcpReception
import Modbus.Proofs.SerialReception
import Modbus.Proofs.TransactionIds
import Modbus.Proofs.FrameSearch
import Modbus.Proofs.UserResponses
import Modbus.Proofs.Places
import Modbus.Proofs.SessionRegistry
import Modbus.Proofs.StaleBytes
import Modbus.Proofs.PduPlaces
import Modbus.Proofs.BlockPlaces
import Modbus.Proofs.FramePlaces
import Modbus.Proofs.SearchOutcome
import Modbus.Proofs.SerialBuffering
import Modbus.Proofs.FrameGrammar
import Modbus.Proofs.SessionLoop
import Modbus.Proofs.PackedValues
import Modbus.Proofs.PaddingBits
import Modbus.Proofs.FileWindows
import Modbus.Proofs.ConnectionState
import Modbus.Proofs.Dispatch
