import EpuckFirmware.Program
import EpuckFirmware.LittleEndian
import EpuckFirmware.NorFlash
import EpuckFirmware.ConfigFlashStorage
import EpuckFirmware.BoundedLog
import EpuckFirmware.ConfigLog
import EpuckFirmware.ConfigSave
import EpuckFirmware.ConfigSaved
import EpuckFirmware.ConfigRefinement
import EpuckFirmware.Crc32
import EpuckFirmware.ConfigReads
import EpuckFirmware.ConfigWrites
import EpuckFirmware.ConfigTermination
import EpuckFirmware.ConfigDirtySector
import EpuckFirmware.ConfigPowerLoss
import EpuckFirmware.ConfigBitRot
import EpuckFirmware.SharedDevice
import EpuckFirmware.FlashTurns
import EpuckFirmware.ConfigConcurrency
import EpuckFirmware.ConfigTree
import EpuckFirmware.ConsecutiveRanges
import EpuckFirmware.FlashSectors
import EpuckFirmware.MotorController
import EpuckFirmware.Prescaler
import EpuckFirmware.MotorControllerCalls
import EpuckFirmware.MotorControllerScheduling
import EpuckFirmware.MotorControllerSetpoints
import EpuckFirmware.MotorControllerLimits
import EpuckFirmware.PositionSettling
import EpuckFirmware.PositionRamp
import EpuckFirmware.VelocityRamp
import EpuckFirmware.ExtendedArithmetic
import EpuckFirmware.PositionUnlimited
import EpuckFirmware.WrapCounter
import EpuckFirmware.Encoder
import EpuckFirmware.AsebaEncoders
import EpuckFirmware.AsebaBytecode
import EpuckFirmware.AsebaBytecodeCut
import EpuckFirmware.History
import EpuckFirmware.AsebaEvents
import EpuckFirmware.CountingLoop
import EpuckFirmware.AsebaCan
import EpuckFirmware.MotorControllerFreshness
import EpuckFirmware.MotorControllerGains
import EpuckFirmware.MotorControllerAccess
import EpuckFirmware.ConfigSaveControllers
import EpuckFirmware.MessageBus
import EpuckFirmware.WheelVoltage
import EpuckFirmware.AdcCallbacks
import EpuckFirmware.AsebaSetpoints
import EpuckFirmware.AsebaSetpointCycles
import EpuckFirmware.AudioRequests
import EpuckFirmware.MemorySegment
import EpuckFirmware.AudioWav
import EpuckFirmware.AudioDac
import EpuckFirmware.AudioPlayback
import EpuckFirmware.AudioFaithful
import EpuckFirmware.AudioWavHeader
import EpuckFirmware.BlockDevice
import EpuckFirmware.FatVolume
import EpuckFirmware.FatRead
import EpuckFirmware.FatMount
import EpuckFirmware.FatPlayback
import EpuckFirmware.FatOpen
import EpuckFirmware.AdcSharing
import EpuckFirmware.ConfigBursts
import EpuckFirmware.FlashCalls
import EpuckFirmware.FlashRegisters
import EpuckFirmware.MemoryProtection
import EpuckFirmware.MotorPidThread
import EpuckFirmware.FlashPowerLoss
