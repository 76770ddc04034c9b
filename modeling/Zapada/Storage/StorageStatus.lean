/-! Result codes shared by the storage drivers and the file systems. Calls that
return a count or a handle use the same type, so a code is a plain integer. -/

namespace Zapada.Storage.StorageStatus

def ok : Int := 0
def notFound : Int := -1
def noMemory : Int := -2
def permissionDenied : Int := -3
def ioError : Int := -4
def invalidArgument : Int := -5
def notSupported : Int := -6
def alreadyExists : Int := -7
def notDirectory : Int := -8
def notFile : Int := -9
def tableFull : Int := -10
def corruptedData : Int := -11
def notMounted : Int := -13

end Zapada.Storage.StorageStatus
