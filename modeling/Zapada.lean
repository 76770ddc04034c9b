import Zapada.Usb.XhciCommandAddress
import Zapada.Usb.XhciRingDelivery
import Zapada.Hal.DriverHal
import Zapada.Hal.PciBar
import Zapada.Kernel.WaiterRuns
import Zapada.Kernel.StaleHandles
import Zapada.Fat32.FileRuns
import Zapada.Fs.DescriptorRuns
import Zapada.Virtio.TransferRuns
import Zapada.Mm.BootOwnership
import Zapada.Mm.PmmRuns
import Zapada.Zaclr.HandleRuns
import Zapada.Zaclr.PinnedHandles
import Zapada.Zaclr.NestedFinally
import Zapada.Zaclr.Substitution
import Zapada.Zaclr.VirtualOverride
import Zapada.Zaclr.TypeTests
import Zapada.Mm.HeapFresh
import Zapada.Mm.FreeBlocks
import Zapada.Kernel.ReadyLists
import Zapada.Initramfs.ArchiveBounds
import Zapada.Ipc.ChannelCopies
import Zapada.Ipc.ChannelHandles
import Zapada.Ipc.PairingRuns
import Zapada.Fs.MountRuns
import Zapada.Fat32.DirectoryAgreement
import Zapada.Fs.LookupHistory
import Zapada.Zaclr.MetadataBounds
import Zapada.Zaclr.RowWidths
import Zapada.Zaclr.SignatureFragments
import Zapada.Zaclr.CompressedUints
import Zapada.Zaclr.InstanceLayouts
import Zapada.Zaclr.InitializerRuns
import Zapada.Zaclr.StaticSlots
import Zapada.Zaclr.Branches
import Zapada.Zaclr.ArrayAllocation
import Zapada.Zaclr.IndirectAccess
import Zapada.Zaclr.ElementSizes
import Zapada.Zaclr.FieldRoundTrips
import Zapada.Zaclr.RecordedFields
import Zapada.Ext.MappingBounds
