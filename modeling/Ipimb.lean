import Ipimb.Configure.Applied
import Ipimb.Configure.Calibration
import Ipimb.Configure.Restore
import Ipimb.Configure.Shared
import Ipimb.Configure.Table
import Ipimb.Device.BeamLine
import Ipimb.Device.Start
import Ipimb.Queue.Budget
import Ipimb.Queue.Fresh
import Ipimb.Queue.Heard
import Ipimb.Queue.Increment
import Ipimb.Queue.Reader
import Ipimb.Queue.Samples
import Ipimb.Records.Bigsel
import Ipimb.Records.Event
import Ipimb.Records.Gains
import Ipimb.Records.Monitors
import Ipimb.Records.Scan
import Ipimb.Wire.Bursts
import Ipimb.Wire.Corruption
