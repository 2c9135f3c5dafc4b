import DrumMachine.Properties.BoardLights
import DrumMachine.Properties.DeleteRuns
import DrumMachine.Properties.KeyEvents
import DrumMachine.Properties.LostExchange
import DrumMachine.Properties.LostMessage
import DrumMachine.Properties.LostSend
import DrumMachine.Properties.QueueOrder
import DrumMachine.Properties.StaleEvents
import DrumMachine.Properties.StepTypes
import DrumMachine.Properties.TimersOnTime
