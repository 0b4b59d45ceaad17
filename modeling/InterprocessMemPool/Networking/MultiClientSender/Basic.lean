import InterprocessMemPool.Networking.MultiClientReceiver.Discovery

namespace BeastNetworking

-- `sharedState` and what the constructor does with the listeners are left out.
structure MultiClientSender where
  topic                    : Text
  boundServerPort_insecure : UInt16
  boundServerPort_secure   : UInt16
  uniqueInstanceID         : UInt64

namespace MultiClientSender

-- What a stream prints for an integer.
def print (n : ℤ) : Text :=
  (toString n).toList

-- `now` is the time since the epoch in milliseconds.
def broadcastMsgCreator (now : Int64) (s : MultiClientSender) : Text :=
  "topic:".toList ++ s.topic
    ++ ",port_insecure:".toList ++ print s.boundServerPort_insecure.toNat
    ++ ",port_secure:".toList ++ print s.boundServerPort_secure.toNat
    ++ ",id:".toList ++ print s.uniqueInstanceID.toNat
    ++ ",endian:".toList ++ print (1 : UInt16).toNat
    ++ ",system_time:".toList ++ print now.toInt
    ++ ",".toList

end MultiClientSender
end BeastNetworking
