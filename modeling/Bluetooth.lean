import Bluetooth.Fault
import Bluetooth.Hci.HandleMap
import Bluetooth.Hci.RoundRobinScheduler
import Bluetooth.Hci.SchedulerRuns
import Bluetooth.Hci.SchedulerInvariants
import Bluetooth.Hci.SchedulerSafety
import Bluetooth.Hci.Fragmentation
import Bluetooth.Hci.SchedulerRotation
import Bluetooth.Hci.SchedulerDelivery
import Bluetooth.Hci.SchedulerCredits
import Bluetooth.Hci.SchedulerProgress
import Bluetooth.Common.ListMap
import Bluetooth.Common.LruCache
import Bluetooth.Module
import Bluetooth.ModuleStart
import Bluetooth.ModuleStop
import Bluetooth.ModuleCycle
import Bluetooth.Storage.ConfigCache
import Bluetooth.Storage.ConfigCacheInvariants
import Bluetooth.Storage.ConfigCacheFrame
import Bluetooth.Shim.Inquiry
import Bluetooth.Shim.InquirySafety
